import DromozoaFuse.Base.Run
import DromozoaFuse.Operations.Lemmas.Filling
import DromozoaFuse.Operations.Theorems

/-!
# The directory filler

Over every run of a managed state: which calls of fillers get through to the function that libfuse has
given to `readdir`, in which order, and what the others come to.
-/

namespace DromozoaFuse.Operations

open Base Lua DromozoaFuse.Bind DromozoaFuse.Convert Fill

variable {X : Type}

/-! ## One invocation -/

/-- What is on record of an invocation from `w` to `w'`: no filler is in scope, unless a `readdir` has called
its handler. -/
inductive Exact (I : Interp (Host (Logged X))) (inv : Invocation) (w w' : World (Host (Logged X)) Memory) : Prop
  | quiet (hquiet : inv.operation ≠ .readdir ∨ pcalls (recorded w w') = [])
      (hbetween : Between none w.heap.host w'.heap.host)
  | listed {path buffer function offset f args handle before} (hinv : inv = .readdir path buffer function offset)
      (hlisted : Listed I function buffer f args handle before w w')

theorem Invocation.no_fill {inv : Invocation} (h : inv.operation ≠ .readdir) :
    ∀ arg ∈ inv.callback.args, arg.isFill = false := by
  have hall : inv.callback.args.all (fun arg => !arg.isFill) = true := by
    cases inv with
    | readdir path buffer function offset => exact absurd rfl h
    | utimens path times => cases times <;> rfl
    | _ => rfl
  intro arg harg
  simpa using List.all_eq_true.mp hall arg harg

variable {I : Interp (Host (Logged X))} {filler : Filler}

theorem invoke_exact (hI : Confined filler I) (inv : Invocation) (ops : Value) (stk : List Value)
    {w : World (Host (Logged X)) Memory} (hs : InScope none w.heap.host) :
    InScope none (invoke I inv ops stk w).2.heap.host ∧ Exact I inv w (invoke I inv ops stk w).2 := by
  have hlogs := callback_logs hI inv.callback_counted inv.converters_nodup ops stk hs
  by_cases hop : inv.operation = .readdir
  · obtain ⟨path, buffer, function, offset, rfl⟩ :
        ∃ path buffer function offset, inv = .readdir path buffer function offset := by
      cases inv <;> first | exact ⟨_, _, _, _, rfl⟩ | cases hop
    by_cases hfound : ∃ f, f ≠ .nil ∧
        (Callback.readdir path buffer function offset).handler I ops (tabled w.mem [.file_info] w.heap) = .ok f
    · obtain ⟨f, hnil, hf⟩ := hfound
      obtain ⟨hscope, args, handle, before, hlisted⟩ := readdir_listed hI path buffer function offset stk hf hnil hs
      exact ⟨hscope, .listed rfl hlisted⟩
    · have hnone : ∀ f, (Callback.readdir path buffer function offset).handler I ops
          (tabled w.mem [.file_info] w.heap) = .ok f → f = .nil :=
        fun f hf => by_contra fun hnil => hfound ⟨f, hnil, hf⟩
      have hlog := hlogs (Or.inr hnone)
      refine ⟨hlog.inScope, .quiet (Or.inr ?_) hlog.between⟩
      have hcourse := callback_course I (Invocation.callback_counted (.readdir path buffer function offset))
        (Invocation.converters_nodup (.readdir path buffer function offset)) ops stk w
      cases hcourse with
      | raised h hout hcalls => exact hcalls
      | missing h hfst hencodes hmem hout hcalls => exact hcalls
      | called h hf => exact absurd (hnone _ h) hf
  · have hlog := hlogs (Or.inl (Invocation.no_fill hop))
    exact ⟨hlog.inScope, .quiet (Or.inl hop) hlog.between⟩

/-! ## Runs -/

/-- A call by libfuse: the invocation, and what the pointers among its arguments point to. -/
structure Request where
  inv : Invocation
  mem : Memory

def Request.world (q : Request) (w : World (Host (Logged X)) Memory) : World (Host (Logged X)) Memory :=
  { w with mem := q.mem }

/-- A managed state from one callback to the next. An error that leaves a callback ends the run. -/
def step (I : Interp (Host (Logged X))) (ops : Value) (stk : List Value) (w : World (Host (Logged X)) Memory)
    (q : Request) : Option (World (Host (Logged X)) Memory) :=
  match invoke I q.inv ops stk (q.world w) with
  | (.ok _, w') => some w'
  | (.error _, _) => none

/-- The module has been loaded, and there has been no `readdir` yet. -/
structure Loaded (host : Host (Logged X)) : Prop where
  registered : host.registered = true
  fill_dirs : ∀ r, host.fill_dirs r = none

theorem Loaded.inScope {host : Host (Logged X)} (h : Loaded host) : InScope none host where
  registered := h.registered
  active := by
    intro a ha
    cases ha
  others := by
    intro r d hd
    rw [h.fill_dirs r] at hd
    cases hd

theorem step_inScope (hI : Confined filler I) {ops : Value} {stk : List Value}
    {w w' : World (Host (Logged X)) Memory} {q : Request} (hs : InScope none w.heap.host)
    (h : step I ops stk w q = some w') : InScope none w'.heap.host := by
  obtain ⟨hscope, -⟩ := invoke_exact hI q.inv ops stk (w := q.world w) hs
  unfold step at h
  rcases hx : invoke I q.inv ops stk (q.world w) with ⟨e | r, w₁⟩
  · rw [hx] at h
    cases h
  · rw [hx] at h hscope
    cases h
    exact hscope

/-- In every run, each `readdir` has its function called exactly for the well-formed calls of its own filler during
the protected call of its handler. -/
theorem fills_exact (hI : Confined filler I) (ops : Value) (stk : List Value)
    {w₀ : World (Host (Logged X)) Memory} (h₀ : Loaded w₀.heap.host) {w : World (Host (Logged X)) Memory}
    (h : Reachable (step I ops stk) w₀ w) (q : Request) :
    Exact I q.inv (q.world w) (invoke I q.inv ops stk (q.world w)).2 := by
  have hs : InScope none w.heap.host := @Reachable.invariant _ _ _ _ (fun w => InScope none w.heap.host) h₀.inScope
    (fun _ _ _ hs hstep => step_inScope hI hs hstep) _ h
  exact (invoke_exact hI q.inv ops stk (w := q.world w) hs).2

/-! ## Scripts that fill -/

/-- Scripts note that they are about to call a filler with a name. -/
def noting (name : Bytes) (h : Heap (Host (Logged (List Bytes)))) : Heap (Host (Logged (List Bytes))) :=
  { h with
    host := { h.host with
      scripts := { h.host.scripts with
        scripts := h.host.scripts.scripts ++ [name] } } }

def filling (J : Interp (Host (Logged (List Bytes)))) (filler : Filler) (handle : Nat) (name : Bytes) (stat : Value)
    (h : Heap (Host (Logged (List Bytes)))) : Heap (Host (Logged (List Bytes))) :=
  if (h.host.fill_dirs handle).isSome then (fill_logged J filler handle [.string name, stat] (noting name h)).2
  else h

theorem filling_scripted (J : Interp (Host (Logged (List Bytes)))) (filler : Filler) (handle : Nat) (name : Bytes)
    (stat : Value) (h : Heap (Host (Logged (List Bytes)))) : h.Scripted (filling J filler handle name stat h) := by
  unfold filling
  split
  · have hs := fill_scripted J filler (.userdata handle) [.string name, stat] (noting name h)
    exact ⟨hs.next, hs.unshared⟩
  · exact .refl h

/-- Scripts whose functions, and whose metamethods for one key, call a filler. -/
def listers (J : Interp (Host (Logged (List Bytes)))) (filler : Filler) (handle : Nat) (name : Bytes)
    (stat key : Value) : Interp (Host (Logged (List Bytes))) where
  call _ _ h := (.ok .nil, filling J filler handle name stat h)
  index _ k h := (.ok .nil, if k = key then filling J filler handle name stat h else h)
  newindex _ _ _ h := (.ok (), h)
  str2number := J.str2number
  number2str := J.number2str
  position := J.position
  argerror := J.argerror
  typename := J.typename
  call_scripted _ _ h := filling_scripted J filler handle name stat h
  index_scripted _ k h := by
    dsimp only
    split
    · exact filling_scripted J filler handle name stat h
    · exact .refl h
  newindex_scripted _ _ _ h := .refl h

theorem filling_plays (J : Interp (Host (Logged (List Bytes)))) (filler : Filler) (handle : Nat) (name : Bytes)
    (stat : Value) (h : Heap (Host (Logged (List Bytes)))) :
    Plays J filler h (filling J filler handle name stat h) := by
  have hown : Own h (noting name h) := ⟨rfl, rfl, rfl, rfl⟩
  unfold filling
  split
  · rename_i hfill
    exact .trans (.own hown) (.fill [.string name, stat] hfill)
  · exact .own ⟨rfl, rfl, rfl, rfl⟩

theorem confined_listers {J : Interp (Host (Logged (List Bytes)))} {filler : Filler} (hJ : Confined filler J)
    (handle : Nat) (name : Bytes) (stat key : Value) : Confined filler (listers J filler handle name stat key) := by
  refine .level hJ (fun _ _ h => filling_plays J filler handle name stat h) fun _ k h => ?_
  dsimp only [listers]
  split
  · exact filling_plays J filler handle name stat h
  · exact .own ⟨rfl, rfl, rfl, rfl⟩

theorem confined_constant (filler : Filler) (reply : Except Value Value) :
    Confined (X := List Bytes) filler (.constant reply) :=
  .last (fun _ _ _ => ⟨rfl, rfl, rfl, rfl⟩) fun _ _ _ => ⟨rfl, rfl, rfl, rfl⟩

/-- A state with a handler for `readdir`, and with a second table, which has a metatable. -/
def lister_world (registered : Bool) : World (Host (Logged (List Bytes))) Memory where
  heap := ⟨fun r => if r = 0 then ⟨fun k => if k = bytes "readdir" then .function 1 else .nil, false, true⟩ else
    ⟨fun _ => .nil, true, true⟩, 2, ⟨fun _ => none, registered, [], ⟨[], []⟩⟩⟩
  mem := .zeroed
  trace := []

def zero_filler : Filler := fun _ _ _ _ _ _ => CInt.int.wrap 0

/-- A handler that fills one name. -/
def list_dot : Interp (Host (Logged (List Bytes))) :=
  listers (.constant (.ok .nil)) zero_filler 3 (bytes ".") .nil .nil

def readdir_request : Request := ⟨.readdir (some (bytes "/")) 7 9 (CInt.off_t.wrap 0), .zeroed⟩

def lister_left (I : Interp (Host (Logged (List Bytes)))) (registered : Bool) : Host (Logged (List Bytes)) :=
  (invoke I readdir_request.inv (.table 0) [] (readdir_request.world (lister_world registered))).2.heap.host

/-- A second `readdir` comes after the first one, and its handler calls the filler of the first one, which is out of
scope. -/
theorem fills_exact_dot :
    Exact list_dot readdir_request.inv (readdir_request.world (lister_world true))
        (invoke list_dot readdir_request.inv (.table 0) [] (readdir_request.world (lister_world true))).2 ∧
      (lister_left list_dot true).filled.map Entry.name = [bytes "."] ∧
      ∃ w, step list_dot (.table 0) [] (lister_world true) readdir_request = some w ∧
        Exact list_dot readdir_request.inv (readdir_request.world w)
          (invoke list_dot readdir_request.inv (.table 0) [] (readdir_request.world w)).2 ∧
        (invoke list_dot readdir_request.inv (.table 0) [] (readdir_request.world w)).2.heap.host.calls.map
            (fun c => (c.handle, c.formed.map Formed.name, c.reply)) =
          [(3, some (bytes "."), .ok [.integer (CInt.int64_t.wrap 0)]),
            (3, some (bytes "."), .ok [.nil, .string (bytes "out of scope")])] ∧
        (invoke list_dot readdir_request.inv (.table 0) [] (readdir_request.world w)).2.heap.host.filled.map
            Entry.name = [bytes "."] := by
  have hconfined : Confined zero_filler list_dot :=
    confined_listers (confined_constant zero_filler (.ok .nil)) 3 (bytes ".") .nil .nil
  have hloaded : Loaded (lister_world true).heap.host := ⟨rfl, fun _ => rfl⟩
  have hreachable : Reachable (step list_dot (.table 0) []) (lister_world true) (lister_world true) := .refl
  have hcalls : (step list_dot (.table 0) [] (lister_world true) readdir_request).map (fun w =>
      (invoke list_dot readdir_request.inv (.table 0) [] (readdir_request.world w)).2.heap.host.calls.map
        (fun c => (c.handle, c.formed.map Formed.name, c.reply))) =
      some [(3, some (bytes "."), .ok [.integer (CInt.int64_t.wrap 0)]),
        (3, some (bytes "."), .ok [.nil, .string (bytes "out of scope")])] := by
    decide +kernel
  have hfilled : (step list_dot (.table 0) [] (lister_world true) readdir_request).map (fun w =>
      (invoke list_dot readdir_request.inv (.table 0) [] (readdir_request.world w)).2.heap.host.filled.map
        Entry.name) = some [bytes "."] := by
    decide +kernel
  obtain ⟨w, hs, hcalls⟩ := Option.map_eq_some_iff.mp hcalls
  have hfilled := Option.some.inj ((congrArg (Option.map _) hs).symm.trans hfilled)
  exact ⟨fills_exact hconfined (.table 0) [] hloaded hreachable readdir_request, by decide +kernel, w, hs,
    fills_exact hconfined (.table 0) [] hloaded (hreachable.tail hs) readdir_request, hcalls, hfilled⟩

/-- A handler that fills a name with attributes whose metamethods fill another name. -/
def list_nested : Interp (Host (Logged (List Bytes))) :=
  listers (listers (.constant (.ok .nil)) zero_filler 3 (bytes "b") .nil (.string (bytes "st_dev"))) zero_filler 3
    (bytes "a") (.table 1) .nil

/-- Where the module has not been loaded, a well-formed call raises an error. And a call from a metamethod of an
argument gets through before the call that has that argument. -/
theorem fills_inexact :
    ((lister_left list_dot false).calls.map (fun c => (c.handle, c.formed.map Formed.name, c.reply)) =
        [(3, some (bytes "."), .error (.string (bytes "attempt to call a  value")))] ∧
      (lister_left list_dot false).filled.map Entry.name = []) ∧
    (lister_left list_nested true).scripts.scripts = [bytes "a", bytes "b"] ∧
      (lister_left list_nested true).filled.map Entry.name = [bytes "b", bytes "a"] := by
  decide +kernel

end DromozoaFuse.Operations
