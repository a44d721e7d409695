import DromozoaFuse.Convert.Lemmas.Plain
import DromozoaFuse.Operations.Lemmas.Stackless

/-!
# The phases of a callback

A callback makes its tables, looks up the handler, makes the arguments, calls the handler, answers
libfuse, and converts the tables back in reverse order. For each phase, what it does to the heap, the
memory and the trace.
-/

namespace DromozoaFuse.Operations

open Base Lua DromozoaFuse.Bind DromozoaFuse.Convert Fill

variable {X : Type} (I : Interp (Host X))

/-! ## The scopes as a sequence -/

def construct_all : List Converter → Nat → StatelessM X Tables
  | [], _ => return []
  | c :: cs, height => do
      let r ← build I (c.fields (← read c.ptr))
      record (.constructed (height + 1 : Int) (some (.table r)))
      let tables ← construct_all cs (height + 1)
      return (c, r) :: tables

def destruct_all : Tables → Nat → StatelessM X Unit
  | [], _ => return ()
  | (c, r) :: tables, height => do
      destruct_all tables (height + 1)
      record (.destructed (height + 1 : Int) (some (.table r)))
      let _ ← decode I c.ptr c.target.steps (.table r)

theorem converting_all_eq {α : Type} (cs : List Converter) (height : Nat) (body : Tables → StatelessM X α) :
    converting_all I cs height body = (do
      let tables ← construct_all I cs height
      let a ← body tables
      destruct_all I tables height
      return a) := by
  induction cs generalizing height body with
  | nil => simp [converting_all, construct_all, destruct_all]
  | cons c cs ih =>
      unfold converting_all converting
      simp [ih, construct_all, destruct_all]

/-! ## Growing heaps -/

/-- New tables and fillers, and everything there was as before. -/
structure Grown (h h' : Heap (Host X)) : Prop where
  next : h.next ≤ h'.next
  tables : ∀ r, r < h.next → h'.tables r = h.tables r
  fill_dirs : ∀ r, r < h.next → h'.host.fill_dirs r = h.host.fill_dirs r
  registered : h'.host.registered = h.host.registered
  filled : h'.host.filled = h.host.filled

theorem Grown.refl (h : Heap (Host X)) : Grown h h :=
  ⟨Nat.le_refl _, fun _ _ => rfl, fun _ _ => rfl, rfl, rfl⟩

theorem Grown.trans {h h' h'' : Heap (Host X)} (h₁ : Grown h h') (h₂ : Grown h' h'') : Grown h h'' where
  next := Nat.le_trans h₁.next h₂.next
  tables := fun r hr => (h₂.tables r (Nat.lt_of_lt_of_le hr h₁.next)).trans (h₁.tables r hr)
  fill_dirs := fun r hr => (h₂.fill_dirs r (Nat.lt_of_lt_of_le hr h₁.next)).trans (h₁.fill_dirs r hr)
  registered := h₂.registered.trans h₁.registered
  filled := h₂.filled.trans h₁.filled

theorem alloc_grown (h : Heap (Host X)) (t : Table) : Grown h (alloc h t) where
  next := Nat.le_succ _
  tables := fun _ hr => Function.update_of_ne (Nat.ne_of_lt hr) ..
  fill_dirs := fun _ _ => rfl
  registered := rfl
  filled := rfl

/-! ## Construction -/

def Converter.table (c : Converter) (m : Memory) : Table := assign_all .empty (c.fields (c.ptr.get m))

/-- The heap in which a handler is looked up: the tables of the converters have been made. -/
def tabled (m : Memory) (cs : List Converter) (h : Heap (Host X)) : Heap (Host X) :=
  cs.foldl (fun h c => alloc h (c.table m)) h

def constructed_events : Tables → Nat → List Event
  | [], _ => []
  | (_, r) :: tables, height =>
      .constructed (height + 1 : Int) (some (.table r)) :: constructed_events tables (height + 1)

/-- The tables denote the structs, and no script has got them. -/
def Encodes (m : Memory) (h : Heap (Host X)) (tables : Tables) : Prop :=
  ∀ p ∈ tables, p.2 < h.next ∧ h.tables p.2 = p.1.table m

theorem Encodes.grown {m : Memory} {h h' : Heap (Host X)} {tables : Tables} (he : Encodes m h tables)
    (hg : Grown h h') : Encodes m h' tables := fun p hp =>
  ⟨Nat.lt_of_lt_of_le (he p hp).1 hg.next, (hg.tables p.2 (he p hp).1).trans (he p hp).2⟩

theorem construct_all_exec (cs : List Converter) (height : Nat) (w : World (Host X) Memory) :
    ∃ tables, (construct_all I cs height).exec w = (.ok tables,
        { w with
          heap := tabled w.mem cs w.heap
          trace := w.trace ++ constructed_events tables height }) ∧
      tables.map Prod.fst = cs ∧ Grown w.heap (tabled w.mem cs w.heap) ∧
      Encodes w.mem (tabled w.mem cs w.heap) tables := by
  induction cs generalizing height w with
  | nil => exact ⟨[], by simp [construct_all, constructed_events, tabled], rfl, .refl _, by simp [Encodes]⟩
  | cons c cs ih =>
      have hread : (read c.ptr : StatelessM X _).exec w = (.ok (c.ptr.get w.mem), w) := rfl
      obtain ⟨tables, hexec, hfst, hgrown, hencodes⟩ := ih (height + 1)
        { w with
          heap := alloc w.heap (c.table w.mem)
          trace := w.trace ++ [.constructed (height + 1 : Int) (some (.table w.heap.next))] }
      refine ⟨(c, w.heap.next) :: tables, ?_, by simp [hfst], (alloc_grown _ _).trans hgrown, ?_⟩
      · unfold construct_all
        rw [Prog.exec_bind_of_ok hread, Prog.exec_bind_of_ok (build_exec I w _),
          Prog.exec_bind_of_ok (exec_record _ _)]
        refine (Prog.exec_bind_of_ok hexec).trans ?_
        simp [constructed_events, tabled]
      · intro p hp
        rcases List.mem_cons.mp hp with rfl | hp
        · refine ⟨Nat.lt_of_lt_of_le (Nat.lt_succ_self _) hgrown.next, ?_⟩
          exact (hgrown.tables _ (Nat.lt_succ_self _)).trans (alloc_tables _ _)
        · exact hencodes p hp

/-! ## Arguments -/

def alloc_fill_dir (h : Heap (Host X)) (function buffer : Nat) : Heap (Host X) :=
  { h with
    next := h.next + 1
    host := h.host.set h.next ⟨some function, some buffer, h.host.registered⟩ }

theorem make_fill_dir_exec (function buffer : Nat) (w : World (Host X) Memory) :
    (make_fill_dir function buffer).exec w =
      (.ok w.heap.next, { w with heap := alloc_fill_dir w.heap function buffer }) := rfl

theorem alloc_fill_dir_grown (h : Heap (Host X)) (function buffer : Nat) :
    Grown h (alloc_fill_dir h function buffer) where
  next := Nat.le_succ _
  tables := fun _ _ => rfl
  fill_dirs := fun _ hr => Function.update_of_ne (Nat.ne_of_lt hr) ..
  registered := rfl
  filled := rfl

/-- The value is what the argument stands for. -/
def Arg.Denotes (tables : Tables) (h : Heap (Host X)) : Arg → Value → Prop
  | .push d, v => v = d.value
  | .pushvalue c, v => v = tables.value c
  | .fill_dir function buffer, v => ∃ r, v = .userdata r ∧ r < h.next ∧
      h.host.fill_dirs r = some ⟨some function, some buffer, h.host.registered⟩
  | .timespec t, v => ∃ r, v = .table r ∧ r < h.next ∧ h.tables r = assign_all .empty (timespec_fields t)

theorem Arg.Denotes.grown {tables : Tables} {h h' : Heap (Host X)} {arg : Arg} {v : Value}
    (hd : arg.Denotes tables h v) (hg : Grown h h') : arg.Denotes tables h' v := by
  cases arg with
  | push d => exact hd
  | pushvalue c => exact hd
  | fill_dir function buffer =>
      obtain ⟨r, hv, hr, hfill⟩ := hd
      exact ⟨r, hv, Nat.lt_of_lt_of_le hr hg.next, by rw [hg.fill_dirs r hr, hg.registered, hfill]⟩
  | timespec t =>
      obtain ⟨r, hv, hr, htable⟩ := hd
      exact ⟨r, hv, Nat.lt_of_lt_of_le hr hg.next, (hg.tables r hr).trans htable⟩

/-- The argument is a value that there is already. -/
def Arg.isPush : Arg → Bool
  | .push _ | .pushvalue _ => true
  | .fill_dir .. | .timespec _ => false

theorem make_args_exec (tables : Tables) (args : List Arg) (values : List Value) (handles : List Nat)
    (w : World (Host X) Memory) :
    ∃ vs hs h, (make_args I tables args values handles).exec w =
        (.ok (values ++ vs, hs ++ handles), { w with heap := h }) ∧
      Grown w.heap h ∧ List.Forall₂ (Arg.Denotes tables h) args vs ∧
      (∀ r ∈ hs, w.heap.next ≤ r ∧ r < h.next) ∧ ((∀ arg ∈ args, arg.isPush = true) → h = w.heap) := by
  induction args generalizing values handles w with
  | nil => exact ⟨[], [], w.heap, by simp [make_args], .refl _, .nil, by simp, fun _ => rfl⟩
  | cons arg args ih =>
      cases arg with
      | push d =>
          obtain ⟨vs, hs, h, hexec, hgrown, hall, hhs, hsame⟩ := ih (values ++ [d.value]) handles w
          exact ⟨d.value :: vs, hs, h, by simp [make_args, hexec], hgrown, .cons rfl hall, hhs,
            fun hpush => hsame fun arg harg => hpush arg (List.mem_cons_of_mem _ harg)⟩
      | pushvalue c =>
          obtain ⟨vs, hs, h, hexec, hgrown, hall, hhs, hsame⟩ := ih (values ++ [tables.value c]) handles w
          exact ⟨tables.value c :: vs, hs, h, by simp [make_args, hexec], hgrown, .cons rfl hall, hhs,
            fun hpush => hsame fun arg harg => hpush arg (List.mem_cons_of_mem _ harg)⟩
      | fill_dir function buffer =>
          have hfirst := alloc_fill_dir_grown w.heap function buffer
          obtain ⟨vs, hs, h, hexec, hgrown, hall, hhs, -⟩ := ih (values ++ [.userdata w.heap.next])
            (w.heap.next :: handles) { w with heap := alloc_fill_dir w.heap function buffer }
          refine ⟨.userdata w.heap.next :: vs, hs ++ [w.heap.next], h, ?_, hfirst.trans hgrown, ?_, ?_,
            fun hpush => ?_⟩
          · rw [make_args, Prog.exec_bind_of_ok (make_fill_dir_exec function buffer w), hexec]
            simp
          · have hd : (Arg.fill_dir function buffer).Denotes tables (alloc_fill_dir w.heap function buffer)
                (.userdata w.heap.next) := ⟨_, rfl, Nat.lt_succ_self _, Function.update_self ..⟩
            exact .cons (hd.grown hgrown) hall
          · intro r hr
            rcases List.mem_append.mp hr with hr | hr
            · have := hhs r hr
              exact ⟨Nat.le_trans hfirst.next this.1, this.2⟩
            · rw [List.mem_singleton.mp hr]
              exact ⟨Nat.le_refl _, Nat.lt_of_lt_of_le (Nat.lt_succ_self _) hgrown.next⟩
          · exact absurd (hpush _ List.mem_cons_self) (by simp [Arg.isPush])
      | timespec t =>
          have hfirst := alloc_grown w.heap (assign_all .empty (timespec_fields t))
          obtain ⟨vs, hs, h, hexec, hgrown, hall, hhs, -⟩ := ih (values ++ [.table w.heap.next]) handles
            { w with heap := alloc w.heap (assign_all .empty (timespec_fields t)) }
          refine ⟨.table w.heap.next :: vs, hs, h, ?_, hfirst.trans hgrown, ?_, ?_, fun hpush => ?_⟩
          · rw [make_args, Prog.exec_bind_of_ok (build_exec I w _), hexec]
            simp
          · have hd : (Arg.timespec t).Denotes tables (alloc w.heap (assign_all .empty (timespec_fields t)))
                (.table w.heap.next) := ⟨_, rfl, Nat.lt_succ_self _, alloc_tables ..⟩
            exact .cons (hd.grown hgrown) hall
          · intro r hr
            exact ⟨Nat.le_trans hfirst.next (hhs r hr).1, (hhs r hr).2⟩
          · exact absurd (hpush _ List.mem_cons_self) (by simp [Arg.isPush])

/-! ## The protected call, and the end of the handles -/

def called (f : Value) (args : List Value) (w : World (Host X) Memory) : World (Host X) Memory :=
  let (reply, heap) := I.call f args (w.heap.share args)
  { w with heap, trace := w.trace ++ [.pcall f args reply] }

/-- What a protected call replies. -/
def reply_of (f : Value) (args : List Value) (w : World (Host X) Memory) : Except Value Value :=
  (I.call f args (w.heap.share args)).1

theorem pcall_exec (f : Value) (args : List Value) (w : World (Host X) Memory) :
    (I.pcall f args).exec w = (.ok (reply_of I f args w), called I f args w) := rfl

def reset_all (handles : List Nat) (host : Host X) : Host X :=
  { host with fill_dirs := fun r => (host.fill_dirs r).map fun d => if r ∈ handles then d.reset else d }

def resetted (handles : List Nat) (w : World (Host X) Memory) : World (Host X) Memory :=
  { w with heap := { w.heap with host := reset_all handles w.heap.host } }

theorem reset_all_singleton (r : Nat) (host : Host X) :
    reset_all [r] host = match host.fill_dirs r with
      | some d => host.set r d.reset
      | none => host := by
  have hother : ∀ s, s ≠ r → (fun d : FillDir => if s ∈ [r] then d.reset else d) = id := by
    intro s hs
    funext d
    simp [hs]
  cases hr : host.fill_dirs r with
  | none =>
      unfold reset_all
      congr 1
      funext s
      by_cases hs : s = r
      · rw [hs, hr]
        rfl
      · rw [hother s hs, Option.map_id, id]
  | some d =>
      unfold reset_all Host.set
      congr 1
      funext s
      by_cases hs : s = r
      · rw [hs, hr, Function.update_self]
        simp
      · rw [hother s hs, Option.map_id, Function.update_of_ne hs, id]

theorem reset_exec (r : Nat) (w : World (Host X) Memory) : (reset r).exec w = (.ok (), resetted [r] w) := by
  unfold reset resetted
  rw [Prog.exec_bind_of_ok (Prog.exec_get w), reset_all_singleton]
  cases w.heap.host.fill_dirs r <;> rfl

theorem reset_all_cons (r : Nat) (handles : List Nat) (host : Host X) :
    reset_all handles (reset_all [r] host) = reset_all (r :: handles) host := by
  have hfill_dirs : ∀ s, (reset_all handles (reset_all [r] host)).fill_dirs s =
      (reset_all (r :: handles) host).fill_dirs s := by
    intro s
    simp only [reset_all]
    cases host.fill_dirs s with
    | none => rfl
    | some d => by_cases hr : s = r <;> by_cases hs : s ∈ handles <;> simp [hr, hs, FillDir.reset]
  exact congrArg (fun f => { host with fill_dirs := f }) (funext hfill_dirs)

theorem resets_exec (handles : List Nat) (w : World (Host X) Memory) :
    (handles.forM reset : StatelessM X Unit).exec w = (.ok (), resetted handles w) := by
  induction handles generalizing w with
  | nil => simp [resetted, reset_all]
  | cons r handles ih =>
      have hsplit : ((r :: handles).forM reset : StatelessM X Unit) = (do reset r; handles.forM reset) := rfl
      have heq : resetted handles (resetted [r] w) = resetted (r :: handles) w := by
        simp only [resetted, reset_all_cons]
      rw [hsplit, Prog.exec_bind_of_ok (reset_exec r w), ih, heq]

end DromozoaFuse.Operations
