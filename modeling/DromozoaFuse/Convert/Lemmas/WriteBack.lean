import DromozoaFuse.Convert.Lemmas.Fields
import DromozoaFuse.Convert.Lemmas.Plain

/-!
# Write-back

A struct is made into a table, fields of the table are assigned, and the table is converted back to
the struct.
-/

namespace DromozoaFuse.Convert

open Base Lua DromozoaFuse.Bind

variable {H M : Type} (I : Interp H) {S : Layout}

/-! ## Converting a plain table -/

/-- What a flat conversion makes of a table with the fields `f`. -/
structure Converted (steps : List (Step S)) (f : Bytes → Value) (that that' : Struct S) : Prop where
  integer : ∀ k, .OPT_FIELD k ∈ steps → ∀ i,
    field_integer I (S.type k) (member that k) (S.type k).min (S.type k).max (f (key k)) = .ok i →
      that' k = (S.store k).wrap i.val
  text : ∀ k, .stream k ∈ steps → ∀ s, I.tolstring (f (key k)) = some s →
    that' k = (S.store k).wrap (extract_unsigned (S.type k) s (member that k)).val
  no_text : ∀ k, .stream k ∈ steps → I.tolstring (f (key k)) = none → that' k = that k
  frame : ∀ k, .OPT_FIELD k ∉ steps → .stream k ∉ steps → that' k = that k

def Accepts (steps : List (Step S)) (f : Bytes → Value) (that : Struct S) : Prop :=
  ∀ k, .OPT_FIELD k ∈ steps → ∃ i,
    field_integer I (S.type k) (member that k) (S.type k).min (S.type k).max (f (key k)) = .ok i

/-- A flat conversion reads every member of its struct but `reserved`, `flag_reserved`, `fh_old` and `padding`. -/
theorem read_iff_of_flat {t : Target} (hflat : ∀ s ∈ t.steps, s.isFlat = true) {k : t.layout.Member} :
    .OPT_FIELD k ∈ t.steps ∨ .stream k ∈ t.steps ↔ k ∉ t.unread := by
  rw [Target.mem_unread, not_not]
  constructor
  · rintro (hk | hk) <;> exact List.mem_flatMap.mpr ⟨_, Target.mem_fields hk rfl, List.mem_singleton_self k⟩
  · intro hk
    obtain ⟨s, hs, hk⟩ := List.mem_flatMap.mp hk
    have hs' : s ∈ t.steps := (List.mem_filter.mp hs).1
    cases s with
    | memset => simp [Step.members] at hk
    | OPT_FIELD j => exact Or.inl (by simp_all [Step.members])
    | stream j => exact Or.inr (by simp_all [Step.members])
    | timespec tv key1 key2 key3 => exact absurd (hflat _ hs') (by simp [Step.isFlat])

/-- What an integer member becomes when the only answer for its key is `f`. -/
theorem Step.Done.integer {o f : Value} {ev : List Event} {that that' : Struct S} {k : S.Member}
    (h : (Step.OPT_FIELD k).Done I o ev that that')
    (hf : ∀ v, .read o (.string (key k)) (.ok v) ∈ ev → v = f) :
    ∃ i, field_integer I (S.type k) (member that k) (S.type k).min (S.type k).max f = .ok i ∧
      that' k = (S.store k).wrap i.val := by
  obtain ⟨⟨v, hv⟩, hall⟩ := h
  exact hf v hv ▸ hall v hv

theorem Step.Done.text {o f : Value} {ev : List Event} {that that' : Struct S} {k : S.Member}
    (h : (Step.stream k).Done I o ev that that')
    (hf : ∀ v, .read o (.string (key k)) (.ok v) ∈ ev → v = f) :
    that' k = match I.tolstring f with
      | some s => (S.store k).wrap (extract_unsigned (S.type k) s (member that k)).val
      | none => that k := by
  obtain ⟨⟨v, hv⟩, hall⟩ := h
  exact hf v hv ▸ hall v hv

theorem decode_plain (t : Target) (hflat : ∀ s ∈ t.steps, s.isFlat = true)
    (p : Ptr M (Struct t.layout)) {r : Nat} {w : World H M} (hr : (w.heap.tables r).metatable = false) :
    ∃ that', ((decode I p t.steps (.table r)).exec w).2.mem = p.set w.mem that' ∧
      ((decode I p t.steps (.table r)).exec w).2.heap = w.heap ∧
      ((((decode I p t.steps (.table r)).exec w).1 = .ok true ∧
          Accepts I t.steps (w.heap.tables r).fields (t.base (p.get w.mem)) ∧
          Converted I t.steps (w.heap.tables r).fields (t.base (p.get w.mem)) that') ∨
        ((∃ e, ((decode I p t.steps (.table r)).exec w).1 = .error e) ∧
          ¬ Accepts I t.steps (w.heap.tables r).fields (t.base (p.get w.mem)))) := by
  obtain ⟨ev, that', htr, hmem, hframe, -, hcases⟩ := t.decode_audited I p r w
  have hread : PlainRead (t.steps.flatMap Step.keys) r w ((decode I p t.steps (.table r)).exec w).2 := by
    have hsteps := steps_plainRead I p hr hflat
    have hdecode : (decode I p t.steps (.table r) : HostM H M Bool) =
        (do t.steps.forM (Step.exec I p (.table r)); return true) := rfl
    rw [hdecode, Prog.exec_bind]
    rcases hx : (t.steps.forM (Step.exec I p (.table r)) : HostM H M Unit).exec w with ⟨e | ⟨⟩, w'⟩ <;>
      rw [hx] at hsteps <;> exact hsteps
  obtain ⟨hheap, ev', htr', hev'⟩ := hread
  obtain rfl : ev = ev' := List.append_cancel_left (htr.symm.trans htr')
  have hkeys : t.steps.flatMap Step.keys ⊆ t.fields.flatMap Step.keys := by
    intro key hkey
    obtain ⟨s, hs, hk⟩ := List.mem_flatMap.mp hkey
    refine List.mem_flatMap.mpr ⟨s, Target.mem_fields hs ?_, hk⟩
    cases s <;> first | rfl | simp [Step.keys] at hk
  have hvalue : ∀ {key : Bytes} {v : Value}, .read (.table r) (.string key) (.ok v) ∈ ev →
      v = (w.heap.tables r).fields key := by
    intro key v hv
    obtain ⟨key', -, heq⟩ := hev' _ hv
    simp only [Event.read.injEq, Value.string.injEq, Except.ok.injEq, true_and] at heq
    obtain ⟨rfl, rfl⟩ := heq
    rfl
  refine ⟨that', hmem, hheap, ?_⟩
  rcases hcases with ⟨hok, -, hdone⟩ | ⟨err, herr, e, he, href⟩
  · refine Or.inl ⟨hok, ?_, ?_, ?_, ?_, ?_⟩
    · intro k hk
      obtain ⟨i, hi, -⟩ := (hdone _ (Target.mem_fields hk rfl)).integer I fun _ => hvalue
      exact ⟨i, hi⟩
    · intro k hk i hi
      obtain ⟨i', hi', hthat⟩ := (hdone _ (Target.mem_fields hk rfl)).integer I fun _ => hvalue
      rw [hi] at hi'
      cases hi'
      exact hthat
    · intro k hk s hs
      have hthat := (hdone _ (Target.mem_fields hk rfl)).text I fun _ => hvalue
      rw [hs] at hthat
      exact hthat
    · intro k hk hs
      have hthat := (hdone _ (Target.mem_fields hk rfl)).text I fun _ => hvalue
      rw [hs] at hthat
      exact hthat
    · intro k hopt hstream
      apply hframe
      rw [← Target.mem_unread]
      by_contra hk
      exact ((read_iff_of_flat hflat).mpr hk).elim hopt hstream
  · refine Or.inr ⟨⟨err, herr⟩, fun hall => ?_⟩
    obtain ⟨key', hkey', rfl⟩ := hev' e he
    refine href ⟨?_, ?_, ?_⟩
    · rintro k hk rfl
      exact hall k (List.mem_filter.mp hk).1
    · rintro rfl
      exact absurd (hkeys hkey') t.tv_sec_not_mem
    · rintro rfl
      exact absurd (hkeys hkey') t.tv_nsec_not_mem

/-! ## The fields of a table made from a struct -/

theorem lookup_of_nodup {α β : Type} [BEq α] [LawfulBEq α] {l : List (α × β)} (h : (l.map Prod.fst).Nodup)
    {key : α} {v : β} (hm : (key, v) ∈ l) : l.lookup key = some v := by
  induction l with
  | nil => simp at hm
  | cons p l ih =>
      obtain ⟨k, u⟩ := p
      simp only [List.map_cons, List.nodup_cons] at h
      rw [List.lookup_cons]
      rcases List.mem_cons.mp hm with heq | htail
      · cases heq
        simp
      · have hne : key ≠ k := by
          rintro rfl
          exact h.1 (List.mem_map_of_mem (f := Prod.fst) htail)
        have hb : (key == k) = false := by simpa using hne
        rw [hb]
        exact ih h.2 htail

theorem last_assigned_of_nodup {fields : List (Bytes × Value)} (h : (fields.map Prod.fst).Nodup)
    {key : Bytes} {v : Value} (hm : (key, v) ∈ fields) : last_assigned fields key = some v :=
  lookup_of_nodup (by simpa [List.map_reverse] using h) (List.mem_reverse.mpr hm)

theorem encoded_keys (t : Target) (hflat : ∀ s ∈ t.steps, s.isFlat = true) (that : Struct t.layout) :
    ((encoded t.steps that).map Prod.fst) = t.fields.flatMap Step.keys := by
  have h : ∀ steps : List (Step t.layout), (∀ s ∈ steps, s.isFlat = true) →
      (encoded steps that).map Prod.fst = (steps.filter fun s => !s.isMemset).flatMap Step.keys := by
    intro steps hsteps
    induction steps with
    | nil => rfl
    | cons s rest ih =>
        have ih := ih fun u hu => hsteps u (List.mem_cons_of_mem _ hu)
        cases s with
        | memset => simpa [encoded, Step.isMemset] using ih
        | OPT_FIELD k => simpa [encoded, Step.isMemset, Step.keys] using ih
        | stream k => simpa [encoded, Step.isMemset, Step.keys] using ih
        | timespec tv key1 key2 key3 =>
            exact absurd (hsteps (.timespec tv key1 key2 key3) (by simp)) (by simp [Step.isFlat])
  exact h t.steps hflat

theorem encoded_OPT_FIELD (t : Target) (hflat : ∀ s ∈ t.steps, s.isFlat = true) (that : Struct t.layout)
    {k : t.layout.Member} (hk : .OPT_FIELD k ∈ t.steps) :
    last_assigned (encoded t.steps that) (key k) = some (field_value that k) := by
  apply last_assigned_of_nodup
  · rw [encoded_keys t hflat]
    exact t.keys_nodup
  · exact List.mem_filterMap.mpr ⟨_, hk, rfl⟩

theorem encoded_stream (t : Target) (hflat : ∀ s ∈ t.steps, s.isFlat = true) (that : Struct t.layout)
    {k : t.layout.Member} (hk : .stream k ∈ t.steps) :
    last_assigned (encoded t.steps that) (key k) = some (.string (decimal (that k).val.toNat)) := by
  apply last_assigned_of_nodup
  · rw [encoded_keys t hflat]
    exact t.keys_nodup
  · exact List.mem_filterMap.mpr ⟨_, hk, rfl⟩

/-! ## Assignments -/

/-- What may be assigned to the field of a member: an integer in the range of the member, the text of
a value where the field is a text, and nil. Other fields may be assigned anything. -/
def Allowed (t : Target) (field : Bytes × Value) : Prop :=
  (∀ k, .OPT_FIELD k ∈ t.steps → field.1 = key k →
    field.2 = .nil ∨ ∃ i, field.2 = .integer i ∧ (t.layout.store k).Mem i.val) ∧
  (∀ k, .stream k ∈ t.steps → field.1 = key k →
    field.2 = .nil ∨ ∃ n : Nat, field.2 = .string (decimal n) ∧ (t.layout.type k).Mem n)

/-- `that'` is `that` with exactly the finally assigned members changed. -/
structure WrittenBack (t : Target) (assignments : List (Bytes × Value)) (that that' : Struct t.layout) :
    Prop where
  integer : ∀ k, .OPT_FIELD k ∈ t.steps → ∀ i,
    last_assigned assignments (key k) = some (.integer i) → (that' k).val = i.val
  text : ∀ k, .stream k ∈ t.steps → ∀ n : Nat,
    last_assigned assignments (key k) = some (.string (decimal n)) → (that' k).val = n
  kept : ∀ k, (last_assigned assignments (key k)).getD .nil = .nil → that' k = that k
  frame : ∀ k, .OPT_FIELD k ∉ t.steps → .stream k ∉ t.steps → that' k = that k

def fields_after (t : Target) (assignments : List (Bytes × Value)) (that : Struct t.layout) (key : Bytes) :
    Value :=
  ((last_assigned assignments key).or (last_assigned (encoded t.steps that) key)).getD .nil

/-- What `scoped_converter` does around a handler that makes these assignments to the table. -/
def write_back (t : Target) (p : Ptr M (Struct t.layout)) (to_table : Struct t.layout → LuaM H M Int)
    (assignments : List (Bytes × Value)) : LuaM H M Bool := do
  let index ← to_table (← onHost (read p))
  assignments.forM fun field => do
    lua_push (.string field.1)
    lua_push field.2
    lua_settable I index
  convert I t p index

theorem assign_all_encoded_fields (t : Target) (assignments : List (Bytes × Value)) (that : Struct t.layout)
    {table : Table} (h : table.fields = (assign_all .empty (encoded t.steps that)).fields) :
    (assign_all table assignments).fields = fields_after t assignments that := by
  funext key
  rw [assign_all_fields, h, assign_all_fields, fields_after]
  cases last_assigned assignments key <;> rfl

theorem write_back_exec (t : Target) (hflat : ∀ s ∈ t.steps, s.isFlat = true)
    (p : Ptr M (Struct t.layout)) (to_table : Struct t.layout → LuaM H M Int)
    (hto : ∀ that stk, (to_table that).run stk =
      (fun r => ((stk.length + 1 : Int), .table r :: stk)) <$> build I (encoded t.steps that))
    (assignments : List (Bytes × Value)) (stk : List Value) (w : World H M) :
    ∃ that', (((write_back I t p to_table assignments).run stk).exec w).2.mem = p.set w.mem that' ∧
      (((((write_back I t p to_table assignments).run stk).exec w).1 =
            .ok (true, .table w.heap.next :: stk) ∧
          Accepts I t.steps (fields_after t assignments (p.get w.mem)) (t.base (p.get w.mem)) ∧
          Converted I t.steps (fields_after t assignments (p.get w.mem)) (t.base (p.get w.mem)) that') ∨
        ((∃ e, (((write_back I t p to_table assignments).run stk).exec w).1 = .error e) ∧
          ¬ Accepts I t.steps (fields_after t assignments (p.get w.mem)) (t.base (p.get w.mem)))) := by
  have hassign : ∀ r, (assignments.forM (fun field => do
      lua_push (.string field.1)
      lua_push field.2
      lua_settable I ((stk.length : Int) + 1)) : LuaM H M Unit).run (.table r :: stk) =
      (fun _ => ((), .table r :: stk)) <$>
        assignments.forM fun field => I.settable (.table r) (.string field.1) field.2 := by
    intro r
    refine forM_run assignments fun field _ => ?_
    have hslot : slot (field.2 :: .string field.1 :: .table r :: stk) ((stk.length : Int) + 1) =
        some (.table r) :=
      slot_append (by omega) (slot_length (.table r) stk) [field.2, .string field.1]
    simp [hslot]
  have hrun : (write_back I t p to_table assignments).run stk =
      (do
        let r ← build I (encoded t.steps (← read p))
        assignments.forM fun field => I.settable (.table r) (.string field.1) field.2
        (fun b => (b, .table r :: stk)) <$> decode I p t.steps (.table r)) := by
    simp only [List.forM_eq_forM] at hassign
    simp [write_back, hto, hassign, convert, from_table_run I p (slot_length _ stk)]
  have hnew : (alloc w.heap (assign_all .empty (encoded t.steps (p.get w.mem)))).tables w.heap.next =
      assign_all .empty (encoded t.steps (p.get w.mem)) := alloc_tables ..
  have hplain : ((alloc w.heap (assign_all .empty (encoded t.steps (p.get w.mem)))).tables
      w.heap.next).metatable = false := by
    rw [hnew, assign_all_metatable]
    rfl
  rw [hrun, Prog.exec_bind_of_ok (read_exec p w), Prog.exec_bind_of_ok (build_exec I w _),
    Prog.exec_bind_of_ok (assign_exec I
      (w := { w with heap := alloc w.heap (assign_all .empty (encoded t.steps (p.get w.mem))) }) hplain _),
    Prog.exec_map]
  simp only [hnew]
  obtain ⟨that', hmem, -, hcases⟩ := decode_plain I t hflat p (r := w.heap.next) (w := { w with
    heap := (alloc w.heap (assign_all .empty (encoded t.steps (p.get w.mem)))).set w.heap.next
      (assign_all (assign_all .empty (encoded t.steps (p.get w.mem))) assignments) }) (by simp [Table.empty])
  rw [Heap.set_tables, assign_all_encoded_fields t assignments _ rfl] at hcases
  refine ⟨that', hmem, ?_⟩
  rcases hcases with ⟨hok, hacc, hconv⟩ | ⟨⟨e, herr⟩, hacc⟩
  · exact Or.inl ⟨by rw [hok]; rfl, hacc, hconv⟩
  · exact Or.inr ⟨⟨e, by rw [herr]; rfl⟩, hacc⟩

/-! ## What comes of the assignments -/

theorem mem_of_last_assigned {fields : List (Bytes × Value)} {key : Bytes} {v : Value}
    (h : last_assigned fields key = some v) : (key, v) ∈ fields := by
  obtain ⟨before, after, heq, -⟩ := List.lookup_eq_some_iff.mp h
  exact List.mem_reverse.mp (by simp [heq])

section

variable {t : Target} {assignments : List (Bytes × Value)} {that : Struct t.layout}

/-- The source of an integer field: what was assigned, or the member itself as a signed integer. -/
theorem field_source_after (that : Struct t.layout) (hflat : ∀ s ∈ t.steps, s.isFlat = true)
    (hallowed : ∀ field ∈ assignments, Allowed t field) {k : t.layout.Member} (hk : .OPT_FIELD k ∈ t.steps) :
    (∃ i, last_assigned assignments (key k) = some (.integer i) ∧ (t.layout.store k).Mem i.val ∧
      field_source I (member that k) (fields_after t assignments that (key k)) = some i) ∨
    ((last_assigned assignments (key k)).getD .nil = .nil ∧
      field_source I (member that k) (fields_after t assignments that (key k)) =
        some (CInt.intmax_t.wrap (that k).val)) := by
  cases hlast : last_assigned assignments (key k) with
  | none =>
      refine Or.inr ⟨rfl, ?_⟩
      rw [fields_after, hlast, encoded_OPT_FIELD t hflat that hk]
      exact field_source_integer I _ _
  | some v =>
      rcases (hallowed _ (mem_of_last_assigned hlast)).1 k hk rfl with hv | ⟨i, hi, hm⟩
      · simp only at hv
        subst hv
        refine Or.inr ⟨rfl, ?_⟩
        rw [fields_after, hlast]
        exact field_source_nil I _
      · simp only at hi
        subst hi
        refine Or.inl ⟨i, rfl, hm, ?_⟩
        rw [fields_after, hlast]
        exact field_source_integer I _ _

/-- The integer that a field is converted to: what was assigned, or the member itself where it is a signed
64-bit integer. -/
theorem field_integer_after (that : Struct t.layout) (hflat : ∀ s ∈ t.steps, s.isFlat = true)
    (hallowed : ∀ field ∈ assignments, Allowed t field) {k : t.layout.Member} (hk : .OPT_FIELD k ∈ t.steps)
    (hfits : CInt.int64_t.Mem (that k).val ∨ ∃ i, last_assigned assignments (key k) = some (.integer i)) :
    ∃ i, field_integer I (t.layout.type k) (member that k) (t.layout.type k).min (t.layout.type k).max
        (fields_after t assignments that (key k)) = .ok i ∧
      (∀ j, last_assigned assignments (key k) = some (.integer j) → i.val = j.val ∧ (t.layout.store k).Mem j.val) ∧
      ((last_assigned assignments (key k)).getD .nil = .nil → i.val = (that k).val) := by
  rcases field_source_after I that hflat hallowed hk with ⟨j, hj, hm, hsource⟩ | ⟨hnil, hsource⟩
  · have hint := field_integer_of_source I hsource
    rw [dif_pos (hm.widen (t.layout.bits_le k))] at hint
    refine ⟨_, hint, fun j' hj' => ?_, fun hnil => ?_⟩
    · obtain rfl : j' = j := by simpa [hj, Value.integer, eq_comm] using hj'
      exact ⟨rfl, hm⟩
    · rw [hj] at hnil
      cases hnil
  · have hmem : CInt.int64_t.Mem (that k).val := by
      rcases hfits with hm | ⟨i, hi⟩
      · exact hm
      · rw [hi] at hnil
        cases hnil
    have hm : (t.layout.type k).Mem (CInt.intmax_t.wrap (that k).val).val :=
      (CInt.mem_int64_wrap (t.layout.width_le k) (member that k)).mpr hmem
    have hint := field_integer_of_source I hsource
    rw [dif_pos hm] at hint
    refine ⟨_, hint, fun j hj => ?_, fun _ => by rw [CInt.wrap_of_mem hmem]⟩
    rw [hj] at hnil
    cases hnil

theorem accepts_iff (hflat : ∀ s ∈ t.steps, s.isFlat = true)
    (hallowed : ∀ field ∈ assignments, Allowed t field) :
    Accepts I t.steps (fields_after t assignments that) that ↔
      ∀ k, .OPT_FIELD k ∈ t.steps → CInt.int64_t.Mem (that k).val ∨
        ∃ i, last_assigned assignments (key k) = some (.integer i) := by
  constructor
  · intro hacc k hk
    obtain ⟨i, hi⟩ := hacc k hk
    rcases field_source_after I that hflat hallowed hk with ⟨j, hj, -, -⟩ | ⟨-, hsource⟩
    · exact Or.inr ⟨j, hj⟩
    · rw [field_integer_of_source I hsource] at hi
      split at hi
      · rename_i hm
        exact Or.inl ((CInt.mem_int64_wrap (t.layout.width_le k) (member that k)).mp hm)
      · cases hi
  · intro h k hk
    obtain ⟨i, hi, -⟩ := field_integer_after I that hflat hallowed hk (h k hk)
    exact ⟨i, hi⟩

/-- A member read by a stream comes back from a field that was left alone. -/
theorem stream_kept (that : Struct t.layout) (hflat : ∀ s ∈ t.steps, s.isFlat = true) {k : t.layout.Member}
    (hk : .stream k ∈ t.steps) (hlast : last_assigned assignments (key k) = none) :
    ∃ s, I.tolstring (fields_after t assignments that (key k)) = some s ∧
      (t.layout.store k).wrap (extract_unsigned (t.layout.type k) s (member that k)).val = that k := by
  have hpos : 0 ≤ (that k).val := by
    have hmin := (member that k).mem.1
    rw [CInt.min, (t.streams_unsigned k hk).1] at hmin
    exact hmin
  have hval : (((that k).val.toNat : Nat) : Int) = (that k).val := Int.toNat_of_nonneg hpos
  have hm : (t.layout.type k).Mem (((that k).val.toNat : Nat) : Int) := hval ▸ (member that k).mem
  refine ⟨decimal (that k).val.toNat, ?_, ?_⟩
  · rw [fields_after, hlast, encoded_stream t hflat that hk]
    rfl
  · rw [extract_decimal hm]
    simp only [hval]
    exact CInt.wrap_val (that k)

theorem Converted.writtenBack (hflat : ∀ s ∈ t.steps, s.isFlat = true)
    (hallowed : ∀ field ∈ assignments, Allowed t field)
    (hmem : ∀ k, .OPT_FIELD k ∈ t.steps → CInt.int64_t.Mem (that k).val ∨
      ∃ i, last_assigned assignments (key k) = some (.integer i)) {that' : Struct t.layout}
    (h : Converted I t.steps (fields_after t assignments that) that that') :
    WrittenBack t assignments that that' := by
  refine ⟨?_, ?_, ?_, h.frame⟩
  · intro k hk i hi
    obtain ⟨j, hint, hassigned, -⟩ := field_integer_after I that hflat hallowed hk (hmem k hk)
    obtain ⟨hval, hm⟩ := hassigned i hi
    rw [h.integer k hk _ hint, hval]
    exact CInt.wrap_of_mem hm
  · intro k hk n hn
    have htext : I.tolstring (fields_after t assignments that (key k)) = some (decimal n) := by
      rw [fields_after, hn]
      rfl
    rw [h.text k hk _ htext]
    rcases (hallowed _ (mem_of_last_assigned hn)).2 k hk rfl with hv | ⟨m, hm, hmm⟩
    · cases hv
    · simp only [Value.string.injEq] at hm
      rw [hm, extract_decimal hmm]
      have hnm : n = m := by rw [← digits_value_decimal n, ← digits_value_decimal m, hm]
      rw [hnm, (t.streams_unsigned k hk).2.1]
      exact CInt.wrap_of_mem hmm
  · intro k hnil
    by_cases hopt : .OPT_FIELD k ∈ t.steps
    · obtain ⟨j, hint, -, hkept⟩ := field_integer_after I that hflat hallowed hopt (hmem k hopt)
      rw [h.integer k hopt _ hint, hkept hnil]
      exact CInt.wrap_val (that k)
    · by_cases hs : .stream k ∈ t.steps
      · cases hlast : last_assigned assignments (key k) with
        | none =>
            obtain ⟨s, htext, hkept⟩ := stream_kept I that hflat hs hlast
            rw [h.text k hs _ htext, hkept]
        | some v =>
            rw [hlast] at hnil
            simp only [Option.getD_some] at hnil
            refine h.no_text k hs ?_
            rw [fields_after, hlast, hnil]
            rfl
      · exact h.frame k hopt hs

end

/-! ## `struct fuse_file_info` -/

theorem file_info_flat : ∀ s ∈ Target.file_info.steps, s.isFlat = true := by
  have hall : ∀ s ∈ file_info_steps, s.isFlat = true := by decide
  exact hall

/-- Of the members of `struct fuse_file_info`, only `fh` has values that are no Lua integers. -/
theorem file_info_fits_iff (that : Struct fuse_file_info) (assignments : List (Bytes × Value)) :
    (∀ k : file_info_member, .OPT_FIELD k ∈ Target.file_info.steps → CInt.int64_t.Mem (that k).val ∨
      ∃ i, last_assigned assignments (key (S := fuse_file_info) k) = some (.integer i)) ↔
    (that .fh).val < 2 ^ 63 ∨ ∃ i, last_assigned assignments (bytes "fh") = some (.integer i) := by
  have hnarrow : ∀ k ∈ ([.flags, .writepage, .direct_io, .keep_cache, .flush, .nonseekable,
      .flock_release, .fh] : List file_info_member), k = .fh ∨ (fuse_file_info.type k).width < 64 := by
    decide
  constructor
  · intro h
    have hfh : Step.OPT_FIELD (S := fuse_file_info) .fh ∈ file_info_steps := by simp [file_info_steps]
    exact (h .fh hfh).imp_left CInt.mem_int64_iff.mp
  · intro h k hk
    rcases hnarrow k (Target.mem_integers.mpr hk) with rfl | hlt
    · exact h.imp_left CInt.mem_int64_iff.mpr
    · exact Or.inl (CInt.mem_int64_of_lt hlt (member that k))

end DromozoaFuse.Convert
