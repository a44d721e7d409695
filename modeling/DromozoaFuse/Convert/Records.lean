import DromozoaFuse.Convert.Attributes
import DromozoaFuse.Convert.Lemmas.WriteBack

/-!
# Tables that are structs

Which table a script returns for a `struct stat` or a `struct statvfs`, and which struct it leaves of a table that it
was given. There is one struct for each of these tables.
-/

namespace DromozoaFuse.Convert

open Base Lua DromozoaFuse.Bind

variable {H M : Type} (I : Interp H)

/-! ## `struct stat` -/

/-- The table has the attributes, and looking at it changes nothing. -/
def StatOf (h : Heap H) (r : Nat) (that : Struct Convert.stat) : Prop :=
  ∃ f time, WellFormed I (· = h) r f time ∧ DecodedAs f time that

variable {I} in
theorem DecodedAs.unique {Q : Heap H → Prop} {r : Nat} {f : Bytes → Value} {time : Stamp → Option (Struct timespec)}
    (hwf : WellFormed I Q r f time) {that that' : Struct Convert.stat} (h : DecodedAs f time that)
    (h' : DecodedAs f time that') : that = that' := by
  have hinteger : ∀ k ∈ attributes, that k = that' k := by
    intro k hk
    apply CInt.Val.ext
    rcases hwf.integers k hk with hnil | ⟨i, hi, -⟩
    · rw [h.absent k hk hnil, h'.absent k hk hnil]
    · rw [h.present k hk i hi, h'.present k hk i hi]
  have htime : ∀ s : Stamp, s.time that = s.time that' := fun s => (h.times s).trans (h'.times s).symm
  funext k
  cases k with
  | st_rdev => exact CInt.Val.ext (h.unread.trans h'.unread.symm)
  | st_atim k => exact congrFun (htime .atim) k
  | st_mtim k => exact congrFun (htime .mtim) k
  | st_ctim k => exact congrFun (htime .ctim) k
  | _ => exact hinteger _ (by simp [attributes])

variable {I} in
theorem StatOf.decode {w : World H M} {r : Nat} {that : Struct Convert.stat} (h : StatOf I w.heap r that)
    (p : Ptr M (Struct Convert.stat)) :
    ∃ w', (Convert.decode I p stat_steps (.table r)).exec w = (.ok true, w') ∧ w'.mem = p.set w.mem that ∧
      w'.heap = w.heap := by
  obtain ⟨f, time, hwf, hdecoded⟩ := h
  obtain ⟨w', hexec, hdecoded'⟩ := hwf.decode p rfl
  obtain ⟨-, that', -, hmem, -⟩ := Target.decode_audited I .stat p r w
  have hheap := (hwf.steady p w rfl).1
  have hmem : ((Convert.decode I p stat_steps (.table r)).exec w).2.mem = p.set w.mem that' := hmem
  rw [hexec] at hmem hheap
  refine ⟨w', hexec, ?_, hheap⟩
  rw [hmem, p.get_set] at hdecoded'
  rw [hmem, hdecoded.unique hwf hdecoded']

/-! ## `struct statvfs` -/

/-- The table has the numbers of the file system, and no metatable. -/
structure StatvfsOf (h : Heap H) (r : Nat) (that : Struct statvfs) : Prop where
  plain : (h.tables r).metatable = false
  integers : ∀ k, ((h.tables r).fields (key (S := statvfs) k) = .nil ∧ (that k).val = 0) ∨
    ∃ i, (h.tables r).fields (key (S := statvfs) k) = .integer i ∧ (that k).val = i.val

theorem statvfs_flat : ∀ s ∈ Target.statvfs.steps, s.isFlat = true := by
  have hall : ∀ s ∈ statvfs_steps, s.isFlat = true := by decide
  exact hall

theorem mem_statvfs_steps (k : statvfs_member) : Step.OPT_FIELD (S := statvfs) k ∈ statvfs_steps := by
  cases k <;> simp [statvfs_steps]

theorem StatvfsOf.field_integer {h : Heap H} {r : Nat} {that : Struct statvfs} (hthat : StatvfsOf h r that)
    (k : statvfs_member) :
    Bind.field_integer I (statvfs.type k) (member (S := statvfs) zero k) (statvfs.type k).min (statvfs.type k).max
      ((h.tables r).fields (key (S := statvfs) k)) = .ok (member that k) := by
  have hmem : (statvfs.type k).Mem (that k).val := (that k).mem
  rcases hthat.integers k with ⟨hnil, hzero⟩ | ⟨i, hi, hval⟩
  · have hz : (member (S := statvfs) zero k).val = 0 := CInt.wrap_of_mem (CInt.zero_mem (statvfs.bits_pos k))
    have hsource : (CInt.intmax_t.wrap (member (S := statvfs) zero k).val).val = (that k).val := by
      rw [hz, hzero]
      decide
    rw [hnil, field_integer_of_source I (field_source_nil I _)]
    simp only [hsource]
    rw [dif_pos hmem]
    rfl
  · rw [hval] at hmem
    rw [hi, field_integer_of_source I (field_source_integer I _ i), dif_pos hmem]
    exact congrArg Except.ok (CInt.Val.ext hval.symm)

theorem StatvfsOf.decode {w : World H M} {r : Nat} {that : Struct statvfs} (h : StatvfsOf w.heap r that)
    (p : Ptr M (Struct statvfs)) :
    ∃ w', (Convert.decode I p statvfs_steps (.table r)).exec w = (.ok true, w') ∧ w'.mem = p.set w.mem that ∧
      w'.heap = w.heap := by
  obtain ⟨that', hmem, hheap, ⟨hok, -, hconverted⟩ | ⟨-, hnot⟩⟩ := decode_plain I .statvfs statvfs_flat p h.plain
  · have hthat : that' = that := by
      funext k
      rw [hconverted.integer k (mem_statvfs_steps k) _ (h.field_integer I k)]
      exact CInt.wrap_val (that k)
    rw [hthat] at hmem
    exact ⟨_, Prod.ext hok rfl, hmem, hheap⟩
  · exact absurd (fun k _ => ⟨_, h.field_integer I k⟩) hnot

/-! ## Structs that are written back -/

/-- The assignments that are allowed leave one struct. -/
theorem WrittenBack.unique {t : Target} {assignments : List (Bytes × Value)} {that that₁ that₂ : Struct t.layout}
    (hallowed : ∀ field ∈ assignments, Allowed t field) (h₁ : WrittenBack t assignments that that₁)
    (h₂ : WrittenBack t assignments that that₂) : that₁ = that₂ := by
  funext k
  by_cases hnil : (last_assigned assignments (key k)).getD .nil = .nil
  · rw [h₁.kept k hnil, h₂.kept k hnil]
  · obtain ⟨v, hv⟩ : ∃ v, last_assigned assignments (key k) = some v := by
      cases hlast : last_assigned assignments (key k) with
      | none => exact absurd (by rw [hlast]; rfl) hnil
      | some v => exact ⟨v, rfl⟩
    rw [hv, Option.getD_some] at hnil
    have hallowed := hallowed _ (mem_of_last_assigned hv)
    by_cases hopt : .OPT_FIELD k ∈ t.steps
    · rcases hallowed.1 k hopt rfl with hv' | ⟨i, hi, -⟩
      · exact absurd hv' hnil
      · obtain rfl : v = .integer i := hi
        exact CInt.Val.ext ((h₁.integer k hopt i hv).trans (h₂.integer k hopt i hv).symm)
    · by_cases hstream : .stream k ∈ t.steps
      · rcases hallowed.2 k hstream rfl with hv' | ⟨n, hn, -⟩
        · exact absurd hv' hnil
        · obtain rfl : v = .string (decimal n) := hn
          exact CInt.Val.ext ((h₁.text k hstream n hv).trans (h₂.text k hstream n hv).symm)
      · rw [h₁.frame k hopt hstream, h₂.frame k hopt hstream]

end DromozoaFuse.Convert
