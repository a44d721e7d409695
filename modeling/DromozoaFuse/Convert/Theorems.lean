import DromozoaFuse.Convert.Lemmas.WriteBack

/-! # Main results about the conversions -/

namespace DromozoaFuse.Convert

open Base Lua DromozoaFuse.Bind

variable {H M : Type} (I : Interp H)

/-! ## Numbers are not changed silently -/

/-- Table `r` answered with `v` when it was asked for the member `k`. -/
def Gave {S : Layout} (r : Nat) (ev : List Event) (k : S.Member) (v : Value) : Prop :=
  .read (.table r) (.string (key k)) (.ok v) ∈ ev

/-- The value that table `r` has for the member `k`: what it answered, or else, where it was never asked, what it would
have answered before the conversion. -/
def Gives {S : Layout} (r : Nat) (w : World H M) (ev : List Event) (k : S.Member) (v : Value) : Prop :=
  Gave r ev k v ∨ (∀ reply, .read (.table r) (.string (key k)) reply ∉ ev) ∧
    (I.lookup (.table r) (.string (key k)) w.heap).1 = .ok v

/-- The conversion of table `r` raised an error, or every integer member for which the table has a number or a string
that can be converted to one has exactly that number. -/
def NotSilent (t : Target) (p : Ptr M (Struct t.layout)) (r : Nat) (w : World H M)
    (out : Except Value (Bool × List Value) × World H M) : Prop :=
  (∃ e, out.1 = .error e) ∨
    ∀ k, t.Integral k → ∀ v n, Gives I r w (recorded w out.2) k v → I.tonumber v = some n →
      n.rational = some ((p.get out.2.mem k).val : ℚ)

/-- Some answer is refused, or all the numbers that the table has are harmless: an integer of Lua that the member can
hold, for a member read by a stream a text that the stream reads as the number, and for a member that is not read
the number that it has anyway. -/
def Harmless (t : Target) (that : Struct t.layout) (r : Nat) (w : World H M) (ev : List Event) : Prop :=
  (∃ e ∈ ev, Refused (acceptable I t.steps (t.base that)) e) ∨
    ∀ k, t.Integral k → ∀ v n, Gives I r w ev k v → I.tonumber v = some n →
      (k ∈ t.integers → ∃ i, n.toInteger? = some i ∧ (t.layout.store k).Mem i.val) ∧
      (k ∈ t.streams → ∀ s, I.tolstring v = some s →
        n.rational = some ((extract_unsigned (t.layout.type k) s (member that k)).val : ℚ)) ∧
      (k ∈ t.unread → n.rational = some ((t.base that k).val : ℚ))

/-- A table that was asked for a member has no other value for it. -/
theorem Gives.gave {S : Layout} {r : Nat} {w : World H M} {ev : List Event} {k : S.Member} {v : Value}
    (h : Gives I r w ev k v) (hasked : ∃ v, .read (.table r) (.string (key k)) (.ok v) ∈ ev) : Gave r ev k v := by
  rcases h with hgave | ⟨hnot, -⟩
  · exact hgave
  · obtain ⟨v', hv'⟩ := hasked
    exact absurd hv' (hnot _)

section

variable {t : Target} {r : Nat} {w : World H M} {ev : List Event} {that that' : Struct t.layout} {k : t.layout.Member}
  {v : Value} {n : Number}

/-- An integer member has the number exactly if that is harmless. -/
theorem integer_exact_iff (hdone : ∀ s ∈ t.fields, s.Done I (.table r) ev (t.base that) that') (hk : k ∈ t.integers)
    (hgives : Gives I r w ev k v) (hn : I.tonumber v = some n) :
    n.rational = some ((that' k).val : ℚ) ↔ ∃ i, n.toInteger? = some i ∧ (t.layout.store k).Mem i.val := by
  obtain ⟨hasked, hread⟩ := hdone _ (Target.mem_fields (Target.mem_integers.mp hk) rfl)
  obtain ⟨i, hi, hthat⟩ := hread v (hgives.gave I hasked)
  rw [hthat]
  exact exact_iff I hn hi

theorem stream_exact_iff (hdone : ∀ s ∈ t.fields, s.Done I (.table r) ev (t.base that) that') (hk : k ∈ t.streams)
    (hgives : Gives I r w ev k v) (hn : I.tonumber v = some n) :
    n.rational = some ((that' k).val : ℚ) ↔ ∀ s, I.tolstring v = some s →
      n.rational = some ((extract_unsigned (t.layout.type k) s (member that k)).val : ℚ) := by
  obtain ⟨hasked, hread⟩ := hdone _ (Target.mem_fields (Target.mem_streams.mp hk) rfl)
  have hthat := hread v (hgives.gave I hasked)
  obtain ⟨s, hs⟩ : ∃ s, I.tolstring v = some s := by
    cases v <;> simp_all [Interp.tonumber, Interp.tolstring]
  obtain ⟨-, hstore, hbase⟩ := t.streams_unsigned k (Target.mem_streams.mp hk)
  simp only [hs, hbase] at hthat
  rw [hthat, hstore, CInt.wrap_val]
  constructor
  · rintro hexact s' hs'
    obtain rfl := Option.some.inj (hs.symm.trans hs')
    exact hexact
  · exact fun h => h s hs

end

theorem not_silent_iff (t : Target) (p : Ptr M (Struct t.layout)) (stk : List Value) (index : Int) (r : Nat)
    (h : slot stk index = some (.table r)) (w : World H M) :
    NotSilent I t p r w (((convert I t p index).run stk).exec w) ↔
      Harmless I t (p.get w.mem) r w (recorded w (((convert I t p index).run stk).exec w).2) := by
  obtain ⟨ev, that', htr, hmem, hframe, -, hcases⟩ := t.decode_audited I p r w
  rw [t.acceptable_fields] at hcases
  have hrec : recorded w ((decode I p t.steps (.table r)).exec w).2 = ev := recorded_eq htr
  have hget : p.get ((decode I p t.steps (.table r)).exec w).2.mem = that' := by rw [hmem, p.get_set]
  rw [convert_exec I t p h]
  simp only [NotSilent, Harmless, hrec, hget]
  rcases hcases with ⟨hok, hnot, hdone⟩ | ⟨err, herr, href⟩
  · rw [hok]
    have hno : ¬ ∃ e ∈ ev, Refused (acceptable I t.steps (t.base (p.get w.mem))) e := by
      rintro ⟨e, he, hr⟩
      exact hnot e he hr
    simp only [Except.map, reduceCtorEq, exists_false, false_or, hno]
    constructor
    · intro hexact k hk v n hgives hn
      have hexact := hexact k hk v n hgives hn
      refine ⟨fun hk => ?_, fun hk => ?_, fun hk => ?_⟩
      · exact (integer_exact_iff I hdone hk hgives hn).mp hexact
      · exact (stream_exact_iff I hdone hk hgives hn).mp hexact
      · rwa [← hframe k (Target.mem_unread.mp hk)]
    · intro hharmless k hk v n hgives hn
      obtain ⟨hinteger, hstream, hunread⟩ := hharmless k hk v n hgives hn
      rcases hk.read with hk | hk | hk
      · exact (integer_exact_iff I hdone hk hgives hn).mpr (hinteger hk)
      · exact (stream_exact_iff I hdone hk hgives hn).mpr (hstream hk)
      · rw [hframe k (Target.mem_unread.mp hk)]
        exact hunread hk
  · rw [herr]
    exact ⟨fun _ => Or.inl href, fun _ => Or.inl ⟨err, rfl⟩⟩

/-- A table with one number in it. -/
def numbered (field : String) (n : Number) : World Unit (Struct Convert.stat) :=
  .single (fun k => if k = bytes field then .number n else .nil) () zero

def fractional_size : World Unit (Struct Convert.stat) := numbered "st_size" (.float (.finite (3 / 2)))

def fifth_rdev : World Unit (Struct Convert.stat) := numbered "st_rdev" (.integer (CInt.int64_t.wrap 5))

theorem not_silent_iff_fractional :
    NotSilent .idle .stat .whole 0 fractional_size
        (((convert .idle .stat .whole 1).run [.table 0]).exec fractional_size) ↔
      Harmless (H := Unit) .idle .stat zero 0 fractional_size
        (recorded fractional_size (((convert .idle .stat .whole 1).run [.table 0]).exec fractional_size).2) :=
  not_silent_iff .idle .stat .whole [.table 0] 1 0 rfl fractional_size

/-- One member that has another number than the table is enough. -/
theorem silent_of_ne {t : Target} {p : Ptr M (Struct t.layout)} {r : Nat} {w : World H M}
    {out : Except Value (Bool × List Value) × World H M} {b : Bool} {stk : List Value} (hok : out.1 = .ok (b, stk))
    {k : t.layout.Member} (hk : t.Integral k) {v : Value} {n : Number} (hgives : Gives I r w (recorded w out.2) k v)
    (hn : I.tonumber v = some n) {i : Int} (hi : (p.get out.2.mem k).val = i) (hne : n.rational ≠ some (i : ℚ)) :
    ¬ NotSilent I t p r w out := by
  rintro (⟨e, he⟩ | h)
  · rw [hok] at he
    cases he
  · exact hne (hi ▸ h k hk v n hgives hn)

/-- A size of one and a half becomes zero, and so does a device of five, which is not read at all. -/
theorem fraction_dropped :
    ¬ NotSilent .idle .stat .whole 0 fractional_size
        (((convert .idle .stat .whole 1).run [.table 0]).exec fractional_size) ∧
      ¬ NotSilent .idle .stat .whole 0 fifth_rdev
          (((convert .idle .stat .whole 1).run [.table 0]).exec fifth_rdev) := by
  have hsize : Target.stat.Integral stat_member.st_size := fun _ => ⟨nofun, nofun, nofun⟩
  have hrdev : Target.stat.Integral stat_member.st_rdev := fun _ => ⟨nofun, nofun, nofun⟩
  constructor
  · have hgave : Gave (S := Convert.stat) 0 (recorded fractional_size
        (((convert .idle .stat .whole 1).run [.table 0]).exec fractional_size).2) .st_size
        (.number (.float (.finite (3 / 2)))) := by
      unfold Gave
      decide +kernel
    have hzero : (Ptr.whole.get (((convert .idle .stat .whole 1).run [.table 0]).exec fractional_size).2.mem
        stat_member.st_size).val = 0 := by decide +kernel
    have hok : (((convert .idle .stat .whole 1).run [.table 0]).exec fractional_size).1 = .ok (true, [.table 0]) := by
      decide +kernel
    have hne : Number.rational (.float (.finite (3 / 2))) ≠ some ((0 : Int) : ℚ) := by decide +kernel
    exact silent_of_ne .idle hok hsize (Or.inl hgave) rfl hzero hne
  · have hasked : ∀ e ∈ recorded fifth_rdev (((convert .idle .stat .whole 1).run [.table 0]).exec fifth_rdev).2,
        e.key? ≠ some (.string (key (S := Convert.stat) .st_rdev)) := by decide +kernel
    have hgives : Gives (S := Convert.stat) .idle 0 fifth_rdev
        (recorded fifth_rdev (((convert .idle .stat .whole 1).run [.table 0]).exec fifth_rdev).2) .st_rdev
        (.integer (CInt.int64_t.wrap 5)) := by
      refine Or.inr ⟨fun reply he => hasked _ he rfl, ?_⟩
      decide +kernel
    have hzero : (Ptr.whole.get (((convert .idle .stat .whole 1).run [.table 0]).exec fifth_rdev).2.mem
        stat_member.st_rdev).val = 0 := by decide +kernel
    have hok : (((convert .idle .stat .whole 1).run [.table 0]).exec fifth_rdev).1 = .ok (true, [.table 0]) := by
      decide +kernel
    have hn : (Interp.idle : Interp Unit).tonumber (.integer (CInt.int64_t.wrap 5)) =
        some (.integer (CInt.int64_t.wrap 5)) := by decide +kernel
    have hne : Number.rational (.integer (CInt.int64_t.wrap 5)) ≠ some ((0 : Int) : ℚ) := by decide +kernel
    exact silent_of_ne .idle hok hrdev hgives hn hzero hne

/-! ## File-info write-back -/

/-- Write-back succeeds and changes exactly the finally assigned members. -/
def WriteBackExact (p : Ptr M (Struct fuse_file_info)) (assignments : List (Bytes × Value))
    (stk : List Value) (w : World H M) : Prop :=
  let out := ((write_back I .file_info p (convert_file_info I) assignments).run stk).exec w
  out.1 = .ok (true, .table w.heap.next :: stk) ∧
    WrittenBack .file_info assignments (p.get w.mem) (p.get out.2.mem)

/-- Write-back is exact unless a handle from 2⁶³ on is left to it. -/
theorem file_info_write_back_iff (p : Ptr M (Struct fuse_file_info)) (assignments : List (Bytes × Value))
    (hallowed : ∀ field ∈ assignments, Allowed .file_info field) (stk : List Value) (w : World H M) :
    WriteBackExact I p assignments stk w ↔
      (p.get w.mem .fh).val < 2 ^ 63 ∨ ∃ i, last_assigned assignments (bytes "fh") = some (.integer i) := by
  have haccepts : Accepts I Target.file_info.steps (fields_after .file_info assignments (p.get w.mem))
      (p.get w.mem) ↔ _ :=
    accepts_iff I file_info_flat hallowed
  rw [← file_info_fits_iff]
  obtain ⟨that', hmem, ⟨hok, hacc, hconv⟩ | ⟨⟨e, herr⟩, hacc⟩⟩ :=
    write_back_exec I .file_info file_info_flat p (convert_file_info I) (convert_file_info_run I)
      assignments stk w
  · have hfits := haccepts.mp hacc
    refine ⟨fun _ => hfits, fun _ => ⟨hok, ?_⟩⟩
    rw [hmem, p.get_set]
    exact hconv.writtenBack I file_info_flat hallowed hfits
  · constructor
    · rintro ⟨hok, -⟩
      rw [herr] at hok
      cases hok
    · intro hfits
      exact absurd (haccepts.mpr hfits) hacc

def opened (fh : Int) : World Unit (Struct fuse_file_info) :=
  .single (fun _ => .nil) () (assign zero file_info_member.fh fh)

theorem file_info_write_back_iff_seven :
    WriteBackExact .idle .whole [(bytes "fh", .integer (CInt.int64_t.wrap 7))] [] (opened (2 ^ 63)) := by
  have hallowed : ∀ field ∈ [(bytes "fh", Value.integer (CInt.int64_t.wrap 7))],
      Allowed .file_info field := by
    intro field hfield
    obtain rfl := List.mem_singleton.mp hfield
    have hfh : ∀ k : file_info_member, bytes "fh" = key (S := fuse_file_info) k → k = .fh := by
      intro k hk
      cases k <;> first | rfl | exact absurd hk (by decide)
    refine ⟨fun k _ hkey => Or.inr ⟨_, rfl, ?_⟩, fun k hk hkey => ?_⟩
    · obtain rfl := hfh k hkey
      decide +kernel
    · obtain rfl := hfh k hkey
      have hlock : file_info_member.fh ∈ [file_info_member.lock_owner] := Target.mem_streams.mpr hk
      simp at hlock
  have hlast : last_assigned [(bytes "fh", .integer (CInt.int64_t.wrap 7))] (bytes "fh") =
      some (.integer (CInt.int64_t.wrap 7)) := by simp [last_assigned]
  exact (file_info_write_back_iff .idle .whole _ hallowed [] (opened (2 ^ 63))).mpr (Or.inr ⟨_, hlast⟩)

/-- A handle of 2⁶³ is refused on the way back, with no handler at all. -/
theorem large_handle_refused : ¬ WriteBackExact .idle .whole [] [] (opened (2 ^ 63)) := by
  have herr : (((write_back .idle .file_info .whole (convert_file_info .idle) []).run []).exec
      (opened (2 ^ 63))).1 = .error (.string (bytes "field \"fh\" out of bounds")) := by
    decide +kernel
  rintro ⟨hok, -⟩
  rw [herr] at hok
  cases hok

end DromozoaFuse.Convert
