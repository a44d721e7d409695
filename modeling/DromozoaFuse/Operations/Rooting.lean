import DromozoaFuse.Base.Collector
import DromozoaFuse.Operations.Theorems

/-!
# The filler of `readdir` and the collector

`readdir` keeps a pointer to the userdata that it passes to its handler, and resets it after the
protected call. The userdata is an argument of the handler and nothing else.
-/

namespace DromozoaFuse.Operations

open Base Lua DromozoaFuse.Bind DromozoaFuse.Convert Fill

variable {X : Type} (I : Interp (Host X))

/-! ## The stack of the protected call -/

/-- `readdir` up to its protected call: the index of the table, and the handle if there is a handler. -/
def readdir_enter (path : Path) (buffer function : Nat) (offset : CInt.off_t.Val) (save : Int) :
    OpM X (Int × Option Nat) := do
  let index ← convert_file_info I (← onHost (read file_info_ptr))
  onHost (record (.constructed index (slot (← get) index)))
  if ← prepare I save "readdir" then
    luaX_push (.cstr path)
    let handle ← new_fill_dir function buffer
    luaX_push (.int offset)
    lua_pushvalue index
    return (index, some handle)
  else return (index, none)

def readdir_call : Option Nat → OpM X Returned
  | some handle => do
      let returned ← Finish.call.run I 5
      onHost (reset handle)
      return returned
  | none => return .int ENOSYS

/-- `readdir` on its state. The handle is reset when the protected call is over. -/
def readdir (path : Path) (buffer function : Nat) (offset : CInt.off_t.Val) : OpM X Returned := do
  let save ← lua_gettop
  let (index, handle) ← readdir_enter I path buffer function offset save
  let returned ← readdir_call I handle
  onHost (record (.destructed index (slot (← get) index)))
  let _ ← convert I .file_info file_info_ptr index
  lua_settop save
  return returned

theorem readdir_eq (path : Path) (buffer function : Nat) (offset : CInt.off_t.Val) :
    callback I (.readdir path buffer function offset) = managed_state (readdir I path buffer function offset) := by
  have hscope : ∀ save, with_converters I [.file_info]
      ((Callback.readdir path buffer function offset).body I save) = (do
        let (index, handle) ← readdir_enter I path buffer function offset save
        let returned ← readdir_call I handle
        onHost (record (.destructed index (slot (← get) index)))
        let _ ← convert I .file_info file_info_ptr index
        return returned) := by
    intro save
    simp only [with_converters, scoped_converter, readdir_enter, Callback.body, Callback.readdir, bind_assoc]
    refine bind_congr fun that => bind_congr fun index => bind_congr fun _ => bind_congr fun _ =>
      bind_congr fun b => ?_
    cases b with
    | false => simp [readdir_call, Finish.missing, Finish.call, Converter.ptr, Converter.target]
    | true =>
        have hindex : Indices.index [(Converter.file_info, index)] .file_info = index := rfl
        simp [push_args, readdir_call, hindex]
        rfl
  have hrun : (Callback.readdir path buffer function offset).run I = (do
      let save ← lua_gettop
      let returned ← with_converters I [.file_info] ((Callback.readdir path buffer function offset).body I save)
      lua_settop save
      return returned) := rfl
  simp [callback, readdir, hrun, hscope]

def readdir_stack (path : Path) (offset : CInt.off_t.Val) (ops f : Value) (t handle : Nat) (stk : List Value) :
    List Value :=
  .table t :: (Datum.int offset).value :: .userdata handle :: (Datum.cstr path).value :: ops ::
    f :: .table t :: ops :: stk

theorem readdir_enter_run (path : Path) (buffer function : Nat) (offset : CInt.off_t.Val) (ops : Value)
    (stk : List Value) :
    (readdir_enter I path buffer function offset (stk.length + 1)).run (ops :: stk) = (do
      let r ← build I (Converter.file_info.fields (← read file_info_ptr))
      record (.constructed (stk.length + 2) (some (.table r)))
      let f ← I.gettable ops (.string (bytes "readdir"))
      if f = .nil then return ((stk.length + 2, none), .nil :: .table r :: ops :: stk)
      else
        let handle ← make_fill_dir function buffer
        return ((stk.length + 2, some handle), readdir_stack path offset ops f r handle stk)) := by
  have htable := fun that => Converter.file_info.to_table_run I that (ops :: stk)
  have hslot : ∀ v, slot (v :: ops :: stk) ((stk.length : Int) + 1) = some ops := fun v =>
    slot_append (by omega) (slot_length ops stk) [v]
  have hget := fun r => luaX_get_field_run I (hslot (.table r)) (bytes "readdir") (M := Memory)
  have hops : ∀ f r, slot (f :: .table r :: ops :: stk) ((stk.length : Int) + 1) = some ops := fun f r =>
    slot_append (by omega) (slot_length ops stk) [f, .table r]
  have hinfo : ∀ r, slot (.table r :: ops :: stk) ((stk.length : Int) + 2) = some (.table r) := fun r => by
    have := slot_length (.table r) (ops :: stk)
    simpa [Int.add_assoc] using this
  have hlast : ∀ xs r, slot (xs ++ .table r :: ops :: stk) ((stk.length : Int) + 2) = some (.table r) := fun xs r =>
    slot_append (by omega) (hinfo r) xs
  simp only [Converter.to_table] at htable
  have hlen : (((ops :: stk).length : Nat) : Int) + 1 = stk.length + 2 := by
    rw [List.length_cons]
    omega
  simp only [readdir_enter, prepare, StateT.run_bind, onHost_run, htable, bind_map_left, hlen, StateT.run_get,
    pure_bind, hinfo, hget, bind_assoc]
  refine bind_congr fun that => bind_congr fun r => bind_congr fun _ => bind_congr fun f => ?_
  by_cases hf : f = .nil
  · simp [hf, Value.type]
  · have htype : f.type ≠ .nil := fun h => hf (Value.type_eq_nil.mp h)
    have hlast := fun h => hlast [(Datum.int offset).value, .userdata h, (Datum.cstr path).value, ops, f] r
    simp only [List.cons_append, List.nil_append] at hlast
    simp [hf, htype, hops, new_fill_dir_run, hlast, readdir_stack]

theorem readdir_enter_exec (path : Path) (buffer function : Nat) (offset : CInt.off_t.Val) {ops : Value}
    (stk : List Value) {w : World (Host X) Memory} {f : Value}
    (hf : (Invocation.readdir path buffer function offset).field I "readdir" ops w = .ok f) (hnil : f ≠ .nil) :
    ∃ t handle w', ((readdir_enter I path buffer function offset (stk.length + 1)).run (ops :: stk)).exec w =
        (.ok ((stk.length + 2, some handle), readdir_stack path offset ops f t handle stk), w') ∧
      w'.heap.host.fill_dirs handle = some ⟨some function, some buffer, w'.heap.host.registered⟩ ∧
      w'.heap.tables = (I.lookup ops (.string (bytes "readdir")) (tabled w.mem [.file_info] w.heap)).2.tables := by
  have hread : (read file_info_ptr : StatelessM X _).exec w = (.ok w.mem.file_info, w) := rfl
  have hget := gettable_exec I ops (.string (bytes "readdir")) (M := Memory)
    { w with
      heap := alloc w.heap (assign_all .empty (Converter.file_info.fields w.mem.file_info))
      trace := w.trace ++ [.constructed (stk.length + 2) (some (.table w.heap.next))] }
  have hfound : (I.lookup ops (.string (bytes "readdir"))
      (alloc w.heap (assign_all .empty (Converter.file_info.fields w.mem.file_info)))).1 = .ok f := hf
  rw [hfound] at hget
  rw [readdir_enter_run, Prog.exec_bind_of_ok hread, Prog.exec_bind_of_ok (build_exec I w _),
    Prog.exec_bind_of_ok (exec_record _ _)]
  dsimp only
  rw [Prog.exec_bind_of_ok hget, if_neg hnil, Prog.exec_bind_of_ok (make_fill_dir_exec function buffer _)]
  exact ⟨w.heap.next, _, _, rfl, Function.update_self .., rfl⟩

/-! ## Objects -/

/-- The object that a value is. Strings are left out: they refer to nothing. -/
def object? : Value → Option Value
  | .table r => some (.table r)
  | .function r => some (.function r)
  | .userdata r => some (.userdata r)
  | .thread r => some (.thread r)
  | _ => none

@[simp] theorem object?_value (d : Datum) : object? d.value = none := by
  cases d with
  | cstr s => cases s <;> rfl
  | _ => rfl

theorem object?_encoded {S : Layout} {steps : List (Step S)} {that : Struct S} {field : Bytes × Value}
    (h : field ∈ encoded steps that) : object? field.2 = none := by
  obtain ⟨s, -, hs⟩ := List.mem_filterMap.mp h
  cases s with
  | OPT_FIELD k => cases hs; rfl
  | stream k => cases hs; rfl
  | _ => cases hs

/-- What an object refers to: the fields of tables, and `others` besides, which are metatables, upvalues and
whatever else the heap does not show. -/
def references (others : Value → Set Value) (h : Heap (Host X)) : Value → Set Value
  | .table r => {v | ∃ k, object? ((h.tables r).fields k) = some v} ∪ others (.table r)
  | v => others v

/-- The objects when a function is called with `nargs` arguments from a stack. The arguments are variables of
the function, as is its own slot, which a tail call takes. It can change nothing else of the stack. -/
def entered (born registry : Set Value) (refs : Value → Set Value) (nargs : Nat) (stk : List Value) :
    Objects Value where
  born := born
  refs := refs
  fixed := registry ∪ {v | some v ∈ (stk.drop (nargs + 1)).map object?}
  natives := []
  vars := (stk.take (nargs + 1)).reverse.map object?

def replied? : Except Value Value → Option Value
  | .ok v | .error v => object? v

/-- The objects when the function has returned or raised something: its slots are gone. -/
def left (reply : Except Value Value) (s : Objects Value) : Objects Value :=
  { s with
    natives := []
    vars := [replied? reply] }

/-- The callback makes a text of what was raised, which is one more occasion for the collector. -/
def makes_text : Except Value Value → Prop
  | .ok _ => False
  | .error v => status v = none ∧ ∃ n, v = .number n

/-- A run of a handler that ends with a reply: the objects when it has been called, what it does, and the
objects when it has done it. -/
structure HandlerRun (born registry : Set Value) (refs : Value → Set Value) (nargs : Nat) (stk : List Value) where
  done : List (Objects Value × Objects.Mutation Value)
  last : Objects Value
  reply : Except Value Value
  run : Run Objects.step (entered born registry refs nargs stk) done last
  reached : ∀ v, replied? reply = some v → last.Reach v

/-- Wherever the collector comes in while the handler does what it does, or while the callback makes a text of
its reply, the userdata is still there when it is reset. -/
def HandlerRun.Keeps {born registry : Set Value} {refs : Value → Set Value} {nargs : Nat} {stk : List Value}
    (r : HandlerRun born registry refs nargs stk) (handle : Nat) : Prop :=
  ∀ tr dead, Run Objects.collecting (entered born registry refs nargs stk, ∅) tr (r.last, dead) →
    Objects.mutations tr = r.done.map Prod.snd → .userdata handle ∉ dead ∧
      (makes_text r.reply → ∀ dead', (left r.reply r.last).Garbage dead' → .userdata handle ∉ dead')

/-- The handler can reach the userdata to its end, and if the callback makes a text of its reply, so can what
is left then. -/
def HandlerRun.Holds {born registry : Set Value} {refs : Value → Set Value} {nargs : Nat} {stk : List Value}
    (r : HandlerRun born registry refs nargs stk) (handle : Nat) : Prop :=
  r.last.Reach (.userdata handle) ∧
    (makes_text r.reply → (left r.reply r.last).Reach (.userdata handle))

theorem HandlerRun.keeps_iff {born registry : Set Value} {refs : Value → Set Value} {nargs : Nat} {stk : List Value}
    (r : HandlerRun born registry refs nargs stk) {handle : Nat} (hborn : .userdata handle ∈ born) :
    r.Keeps handle ↔ r.Holds handle := by
  have hlast : .userdata handle ∈ r.last.born := Objects.born_run r.run hborn
  have hborn₀ : .userdata handle ∈ (entered born registry refs nargs stk).born := hborn
  rw [Holds, ← Objects.survives_iff hborn₀ r.run]
  constructor
  · intro hkeeps
    refine ⟨fun tr dead hrun heq => (hkeeps tr dead hrun heq).1, fun htext => ?_⟩
    by_contra hreach
    obtain ⟨tr, hrun, heq⟩ := Objects.run_collecting r.run
    have hgarbage : (left r.reply r.last).Garbage {.userdata handle} := by
      rintro a rfl
      exact ⟨hlast, hreach⟩
    exact (hkeeps tr ∅ hrun heq).2 htext _ hgarbage rfl
  · rintro ⟨hkeeps, hreach⟩ tr dead hrun heq
    exact ⟨hkeeps tr dead hrun heq, fun htext dead' hgarbage hdead => (hgarbage _ hdead).2 (hreach htext)⟩

/-- `readdir` passes a userdata to its handler, and resets it after the protected call. It is there then, wherever the
collector comes in, exactly when the handler holds on to it. -/
theorem fill_kept_iff (path : Path) (buffer function : Nat) (offset : CInt.off_t.Val) {ops : Value}
    (stk : List Value) {w : World (Host X) Memory} {f : Value}
    (hf : (Invocation.readdir path buffer function offset).field I "readdir" ops w = .ok f) (hnil : f ≠ .nil) :
    callback I (.readdir path buffer function offset) = managed_state (readdir I path buffer function offset) ∧
    ∃ t handle w', ((readdir_enter I path buffer function offset (stk.length + 1)).run (ops :: stk)).exec w =
        (.ok ((stk.length + 2, some handle), readdir_stack path offset ops f t handle stk), w') ∧
      ∀ (born registry : Set Value) (others : Value → Set Value), .userdata handle ∈ born →
        ∀ r : HandlerRun born registry (references others w'.heap) 5 (readdir_stack path offset ops f t handle stk),
          r.Keeps handle ↔ r.Holds handle := by
  obtain ⟨t, handle, w', hexec, -⟩ := readdir_enter_exec I path buffer function offset stk hf hnil
  exact ⟨readdir_eq I path buffer function offset, t, handle, w', hexec,
    fun born registry others hborn r => r.keeps_iff hborn⟩

def listing : World (Host Unit) Memory := loaded [("readdir", .function 1)] .zeroed

theorem listing_handler :
    (Invocation.readdir (some (bytes "/")) 7 9 (CInt.off_t.wrap 0)).field (.constant (.ok .nil)) "readdir" (.table 0)
      listing = .ok (.function 1) := by
  decide +kernel

theorem listing_refers (r : Nat) (k : Bytes) (v : Value)
    (h : object? (((tabled Memory.zeroed [.file_info] listing.heap).tables r).fields k) = some v) :
    v = .function 1 := by
  change object? ((Function.update listing.heap.tables 1 (Converter.file_info.table .zeroed) r).fields k) = some v at h
  by_cases hr : r = 1
  · rw [hr, Function.update_self, Converter.table, assign_all_fields] at h
    cases hlast : last_assigned (Converter.file_info.fields (Converter.file_info.ptr.get .zeroed)) k with
    | none =>
        rw [hlast] at h
        cases h
    | some u =>
        rw [hlast, Option.getD_some, object?_encoded (mem_of_last_assigned hlast)] at h
        cases h
  · rw [Function.update_of_ne hr] at h
    change object? (([(bytes "readdir", Value.function 1)].lookup k).getD .nil) = some v at h
    rw [List.lookup_cons] at h
    cases hk : k == bytes "readdir" with
    | true =>
        rw [hk] at h
        exact (Option.some.inj h).symm
    | false =>
        rw [hk] at h
        cases h

/-- `path = fill; fill = nil; fill = path` -/
def copying (handle : Nat) : List (Objects.Mutation Value) :=
  [.assign 2 (some (.userdata handle)), .assign 3 none, .assign 3 (some (.userdata handle))]

/-- Where a function is left that nothing refers to, the run of `copying`, and the collector that deletes the function
before `fill` is there again. -/
theorem copying_run {s : Objects Value} {handle : Nat} (hreach : s.Reach (.userdata handle))
    (hlength : 3 < s.vars.length) (hborn : .function 9 ∈ s.born)
    (hgarbage : ¬ (({ s with vars := (s.vars.set 2 (some (.userdata handle))).set 3 none }) : Objects Value).Reach
      (.function 9)) :
    ∃ done last, Run Objects.step s done last ∧ done.map Prod.snd = copying handle ∧
      some (.userdata handle) ∈ last.vars ∧
      ∃ tr dead, Run Objects.collecting (s, ∅) tr (last, dead) ∧ Objects.mutations tr = copying handle ∧
        .function 9 ∈ dead := by
  have hkept : some (.userdata handle) ∈ (s.vars.set 2 (some (.userdata handle))).set 3 none :=
    List.mem_iff_getElem?.mpr ⟨2, by simp [show 2 < s.vars.length by omega]⟩
  have h₁ : s.step (.assign 2 (some (.userdata handle))) = some (s.mutate (.assign 2 (some (.userdata handle)))) :=
    Objects.step_eq_some.mpr ⟨fun a ha => Option.some.inj ha ▸ hreach, rfl⟩
  have h₂ : (s.mutate (.assign 2 (some (.userdata handle)))).step (.assign 3 none) = some _ :=
    Objects.step_eq_some.mpr ⟨fun a ha => (by cases ha), rfl⟩
  have h₃ : ((s.mutate (.assign 2 (some (.userdata handle)))).mutate (.assign 3 none)).step
      (.assign 3 (some (.userdata handle))) = some _ :=
    Objects.step_eq_some.mpr ⟨fun a ha => Option.some.inj ha ▸ .root (Or.inr (Or.inr hkept)), rfl⟩
  refine ⟨_, _, ((Run.single h₁).snoc h₂).snoc h₃, rfl, ?_, ?_⟩
  · exact List.mem_iff_getElem?.mpr ⟨3, by simp [Objects.mutate, hlength]⟩
  · have hcollect : Objects.collecting ((s.mutate (.assign 2 (some (.userdata handle)))).mutate (.assign 3 none), ∅)
        (.collect {.function 9}) = some (_, ∅ ∪ {.function 9}) :=
      if_pos (by rintro a rfl; exact ⟨hborn, hgarbage⟩)
    have hmutate : ∀ {s s' : Objects Value} {i : Nat} {v : Option Value} (dead : Set Value),
        s.step (.assign i v) = some s' → Objects.collecting (s, dead) (.mutate (.assign i v)) = some (s', dead) := by
      intro s s' i v dead hs
      simp [Objects.collecting, Objects.Mutation.revived?, hs]
    exact ⟨_, _, (((Run.single (hmutate ∅ h₁)).snoc (hmutate ∅ h₂)).snoc hcollect).snoc (hmutate _ h₃), rfl,
      Set.mem_union_right _ rfl⟩

/-- Besides the handler only roots are reached. -/
theorem listing_roots {h : Heap (Host Unit)}
    (htables : h.tables = (tabled Memory.zeroed [.file_info] listing.heap).tables) {s : Objects Value}
    (hrefs : s.refs = references (fun _ => ∅) h) {v : Value} (hreach : s.Reach v) (hv : v ≠ .function 1) :
    v ∈ s.roots := by
  refine (hreach.rule (P := fun y => y ∈ s.roots ∨ y = .function 1) (fun _ => Or.inl) ?_).resolve_right hv
  rintro y z - hz
  rw [hrefs] at hz
  cases y with
  | table r =>
      rcases hz with ⟨k, hk⟩ | hz
      · exact Or.inr (listing_refers r k z (by rw [← hk, htables]))
      · cases hz
  | _ => cases hz

/-- A handler that overwrites its parameter keeps the userdata in another one. The collector comes in then, and deletes
a function that nothing refers to. -/
theorem fill_kept_iff_copied :
    ∃ t handle w', ((readdir_enter (.constant (.ok .nil)) (some (bytes "/")) 7 9 (CInt.off_t.wrap 0) 1).run
        [.table 0]).exec listing =
        (.ok ((2, some handle),
          readdir_stack (some (bytes "/")) (CInt.off_t.wrap 0) (.table 0) (.function 1) t handle []), w') ∧
      ∃ r : HandlerRun {.userdata handle, .function 9} ∅ (references (fun _ => ∅) w'.heap) 5
          (readdir_stack (some (bytes "/")) (CInt.off_t.wrap 0) (.table 0) (.function 1) t handle []),
        r.done.map Prod.snd = copying handle ∧ r.reply = .ok .nil ∧ r.Keeps handle ∧
        ∃ tr dead, Run Objects.collecting (entered {.userdata handle, .function 9} ∅ (references (fun _ => ∅) w'.heap) 5
            (readdir_stack (some (bytes "/")) (CInt.off_t.wrap 0) (.table 0) (.function 1) t handle []), ∅) tr
            (r.last, dead) ∧
          Objects.mutations tr = copying handle ∧ .function 9 ∈ dead ∧ .userdata handle ∉ dead := by
  obtain ⟨-, t, handle, w', hexec, hkept⟩ := fill_kept_iff (.constant (.ok .nil)) (some (bytes "/")) 7 9
    (CInt.off_t.wrap 0) [] listing_handler (by simp)
  obtain ⟨_, _, _, hexec', -, htables⟩ := readdir_enter_exec (.constant (.ok .nil)) (some (bytes "/")) 7 9
    (CInt.off_t.wrap 0) [] listing_handler (by simp)
  obtain ⟨-, rfl⟩ := Prod.mk.inj (hexec.symm.trans hexec')
  have hreach : (entered {.userdata handle, .function 9} ∅ (references (fun _ => ∅) w'.heap) 5
      (readdir_stack (some (bytes "/")) (CInt.off_t.wrap 0) (.table 0) (.function 1) t handle [])).Reach
      (.userdata handle) :=
    .root (Or.inr (Or.inr (by simp [entered, readdir_stack, object?])))
  obtain ⟨done, last, hrun, hdone, hlast, tr, dead, hcollecting, hmutations, hdead⟩ := copying_run hreach
    (by simp [entered, readdir_stack]) (Or.inr rfl) fun hfunction => by
      rcases listing_roots htables rfl hfunction (by simp) with hroot | hroot | hroot
      · simp [entered, readdir_stack, object?] at hroot
      · simp [entered] at hroot
      · simp [entered, readdir_stack] at hroot
        simp [object?] at hroot
  have hkeeps := (hkept _ ∅ (fun _ => ∅) (Or.inl rfl)
    ⟨done, last, .ok .nil, hrun, by simp [replied?, object?]⟩).mpr
    ⟨.root (Or.inr (Or.inr hlast)), fun h => False.elim h⟩
  exact ⟨t, handle, w', hexec, ⟨done, last, .ok .nil, hrun, by simp [replied?, object?]⟩, hdone, rfl, hkeeps, tr, dead,
    hcollecting, hmutations, hdead, (hkeeps tr dead hcollecting (hmutations.trans hdone.symm)).1⟩

/-- A handler that drops its parameter loses the userdata. -/
theorem dropped_fill_deleted :
    ∃ t handle w', ((readdir_enter (.constant (.ok .nil)) (some (bytes "/")) 7 9 (CInt.off_t.wrap 0) 1).run
        [.table 0]).exec listing =
        (.ok ((2, some handle),
          readdir_stack (some (bytes "/")) (CInt.off_t.wrap 0) (.table 0) (.function 1) t handle []), w') ∧
      ∃ r : HandlerRun {.userdata handle} ∅ (references (fun _ => ∅) w'.heap) 5
          (readdir_stack (some (bytes "/")) (CInt.off_t.wrap 0) (.table 0) (.function 1) t handle []),
        r.done.map Prod.snd = [.assign 3 none] ∧ r.reply = .ok .nil ∧ ¬ r.Keeps handle := by
  obtain ⟨t, handle, w', hexec, -, htables⟩ := readdir_enter_exec (.constant (.ok .nil)) (some (bytes "/")) 7 9
    (CInt.off_t.wrap 0) [] listing_handler (by simp)
  refine ⟨t, handle, w', hexec,
    ⟨_, _, .ok .nil, .snoc .nil (Objects.step_eq_some.mpr ⟨by simp [Objects.Allowed], rfl⟩),
    by simp [replied?, object?]⟩, rfl, rfl, fun hkeeps => ?_⟩
  have hborn : Value.userdata handle ∈ ({.userdata handle} : Set Value) := rfl
  obtain ⟨hreach, -⟩ := (HandlerRun.keeps_iff _ hborn).mp hkeeps
  rcases listing_roots htables rfl hreach (by simp) with hroot | hroot | hroot
  · simp [entered, readdir_stack, object?, Objects.mutate] at hroot
  · simp [entered, Objects.mutate] at hroot
  · simp [entered, readdir_stack, Objects.mutate] at hroot
    simp [object?] at hroot

end DromozoaFuse.Operations
