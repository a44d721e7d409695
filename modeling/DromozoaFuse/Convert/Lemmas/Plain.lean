import DromozoaFuse.Convert.Lemmas.Targets

/-!
# Tables without metatables

The tables the conversions make, and whatever is assigned to them: reading them runs no script.
-/

namespace DromozoaFuse.Convert

open Base Lua DromozoaFuse.Bind

variable {H M : Type} (I : Interp H) {S : Layout}

/-! ## Sequences of assignments -/

def assign_all (t : Table) (fields : List (Bytes × Value)) : Table :=
  fields.foldl (fun t field => t.set field.1 field.2) t

def last_assigned (fields : List (Bytes × Value)) (key : Bytes) : Option Value :=
  fields.reverse.lookup key

@[simp] theorem assign_all_metatable (t : Table) (fields : List (Bytes × Value)) :
    (assign_all t fields).metatable = t.metatable := by
  induction fields generalizing t with
  | nil => rfl
  | cons field fields ih => exact ih _

theorem assign_all_append (t : Table) (fields fields' : List (Bytes × Value)) :
    assign_all t (fields ++ fields') = assign_all (assign_all t fields) fields' :=
  List.foldl_append ..

theorem assign_all_fields (t : Table) (fields : List (Bytes × Value)) (key : Bytes) :
    (assign_all t fields).fields key = (last_assigned fields key).getD (t.fields key) := by
  induction fields using List.reverseRecOn with
  | nil => rfl
  | append_singleton fields field ih =>
      obtain ⟨k, v⟩ := field
      rw [assign_all_append]
      simp only [assign_all, List.foldl_cons, List.foldl_nil, Table.set_fields, last_assigned,
        List.reverse_append, List.reverse_cons, List.reverse_nil, List.nil_append, List.singleton_append,
        List.lookup_cons] at ih ⊢
      by_cases hk : key = k
      · simp [hk]
      · have hb : (key == k) = false := by simpa using hk
        rw [Function.update_of_ne hk, hb]
        exact ih

/-! ## Building and assigning -/

theorem settable_exec {w : World H M} {r : Nat} (hr : (w.heap.tables r).metatable = false) (key : Bytes)
    (v : Value) :
    (I.settable (.table r) (.string key) v).exec w =
      (.ok (), { w with heap := w.heap.set r ((w.heap.tables r).set key v) }) := by
  simp [Interp.settable, hr]

theorem assign_exec {w : World H M} {r : Nat} (hr : (w.heap.tables r).metatable = false)
    (fields : List (Bytes × Value)) :
    (fields.forM (fun field => I.settable (.table r) (.string field.1) field.2) : HostM H M Unit).exec w =
      (.ok (), { w with heap := w.heap.set r (assign_all (w.heap.tables r) fields) }) := by
  induction fields generalizing w with
  | nil => simp [assign_all, Heap.set]
  | cons field fields ih =>
      have hcons : ((field :: fields).forM
          (fun field => I.settable (.table r) (.string field.1) field.2) : HostM H M Unit) =
          (do I.settable (.table r) (.string field.1) field.2
              fields.forM fun field => I.settable (.table r) (.string field.1) field.2) := rfl
      rw [hcons, Prog.exec_bind_of_ok (settable_exec I hr field.1 field.2), ih (by simpa using hr)]
      simp [assign_all]

def alloc (h : Heap H) (t : Table) : Heap H :=
  { h with tables := Function.update h.tables h.next t, next := h.next + 1 }

@[simp] theorem alloc_tables (h : Heap H) (t : Table) : (alloc h t).tables h.next = t :=
  Function.update_self ..

theorem build_exec (w : World H M) (fields : List (Bytes × Value)) :
    (build I fields).exec w =
      (.ok w.heap.next, { w with heap := alloc w.heap (assign_all .empty fields) }) := by
  have hnew : (newtable : HostM H M Nat).exec w = (.ok w.heap.next, { w with heap := alloc w.heap .empty }) := rfl
  have hplain : ((alloc w.heap .empty).tables w.heap.next).metatable = false := by
    rw [alloc_tables]
    rfl
  rw [build, Prog.exec_bind_of_ok hnew,
    Prog.exec_bind_of_ok (assign_exec I (w := { w with heap := alloc w.heap .empty }) hplain fields)]
  simp [alloc, Heap.set]

/-! ## Reading -/

theorem lookup_plain {h : Heap H} {r : Nat} (hr : (h.tables r).metatable = false) (key : Bytes) :
    I.lookup (.table r) (.string key) h = (.ok ((h.tables r).fields key), h) := by
  simp [Interp.lookup, Heap.rawget, hr]

/-- A statement that reads a field and nothing below it. -/
def Step.isFlat : Step S → Bool
  | .timespec .. => false
  | _ => true

/-- Reading a plain table changes nothing but the struct, and the answers are its fields. -/
def PlainRead (keys : List Bytes) (r : Nat) (w w' : World H M) : Prop :=
  w'.heap = w.heap ∧ ∃ ev, w'.trace = w.trace ++ ev ∧
    ∀ e ∈ ev, ∃ key ∈ keys, e = .read (.table r) (.string key) (.ok ((w.heap.tables r).fields key))

theorem PlainRead.refl (keys : List Bytes) (r : Nat) (w : World H M) : PlainRead keys r w w :=
  ⟨rfl, [], by simp, by simp⟩

theorem PlainRead.mono {keys keys' : List Bytes} (hk : keys ⊆ keys') {r : Nat} {w w' : World H M}
    (h : PlainRead keys r w w') : PlainRead keys' r w w' := by
  obtain ⟨hh, ev, htr, hev⟩ := h
  refine ⟨hh, ev, htr, fun e he => ?_⟩
  obtain ⟨key, hkey, heq⟩ := hev e he
  exact ⟨key, hk hkey, heq⟩

theorem PlainRead.trans {keys : List Bytes} {r : Nat} {w w₁ w₂ : World H M} (h₁ : PlainRead keys r w w₁)
    (h₂ : PlainRead keys r w₁ w₂) : PlainRead keys r w w₂ := by
  obtain ⟨hh₁, ev₁, htr₁, hev₁⟩ := h₁
  obtain ⟨hh₂, ev₂, htr₂, hev₂⟩ := h₂
  refine ⟨hh₂.trans hh₁, ev₁ ++ ev₂, by rw [htr₂, htr₁, List.append_assoc], ?_⟩
  intro e he
  rcases List.mem_append.mp he with he | he
  · exact hev₁ e he
  · rw [hh₁] at hev₂
    exact hev₂ e he

theorem answered_plainRead {w : World H M} {r : Nat} (hr : (w.heap.tables r).metatable = false) (key : Bytes) :
    PlainRead [key] r w (answered I w (.table r) (.string key)) := by
  refine ⟨?_, [.read (.table r) (.string key) (.ok ((w.heap.tables r).fields key))], ?_, ?_⟩
  · simp [answered, lookup_plain I hr]
  · simp [answered, lookup_plain I hr]
  · simp

variable (p : Ptr M (Struct S))

theorem Step.exec_plainRead {w : World H M} {r : Nat} (hr : (w.heap.tables r).metatable = false)
    {step : Step S} (hflat : step.isFlat = true) :
    PlainRead step.keys r w ((step.exec I p (.table r)).exec w).2 := by
  cases step with
  | memset => exact PlainRead.refl _ r w
  | OPT_FIELD k =>
      have hread := answered_plainRead I hr (key k)
      rw [OPT_FIELD_exec, opt_integer_field_exec, lookup_plain I hr]
      dsimp only
      cases field_integer I (S.type k) (member (p.get w.mem) k) (S.type k).min (S.type k).max
        ((w.heap.tables r).fields (key k)) with
      | error what => exact hread
      | ok i => exact hread
  | stream k =>
      have hread := answered_plainRead I hr (key k)
      rw [stream_exec, lookup_plain I hr]
      dsimp only
      cases I.tolstring ((w.heap.tables r).fields (key k)) with
      | none => exact hread
      | some s => exact hread
  | timespec tv key1 key2 key3 => simp [isFlat] at hflat

theorem steps_plainRead {w : World H M} {r : Nat} (hr : (w.heap.tables r).metatable = false)
    {steps : List (Step S)} (hflat : ∀ s ∈ steps, s.isFlat = true) :
    PlainRead (steps.flatMap Step.keys) r w
      ((steps.forM (Step.exec I p (.table r)) : HostM H M Unit).exec w).2 := by
  induction steps generalizing w with
  | nil => exact PlainRead.refl _ r w
  | cons s rest ih =>
      have hsplit : ((s :: rest).forM (Step.exec I p (.table r)) : HostM H M Unit) =
          (do s.exec I p (.table r); rest.forM (Step.exec I p (.table r))) := rfl
      have hs : PlainRead ((s :: rest).flatMap Step.keys) r w ((s.exec I p (.table r)).exec w).2 :=
        (Step.exec_plainRead I p hr (hflat s (by simp))).mono (by simp)
      rw [hsplit, Prog.exec_bind]
      rcases hx : (s.exec I p (.table r)).exec w with ⟨e | ⟨⟩, w₁⟩
      · rw [hx] at hs
        exact hs
      · rw [hx] at hs
        have hr₁ : (w₁.heap.tables r).metatable = false := by
          rw [hs.1]
          exact hr
        exact hs.trans ((ih hr₁ fun t ht => hflat t (List.mem_cons_of_mem _ ht)).mono (by simp))

end DromozoaFuse.Convert
