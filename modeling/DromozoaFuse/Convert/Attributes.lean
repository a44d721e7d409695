import DromozoaFuse.Convert.Lemmas.Reading

/-!
# Main results about attributes

What the conversion to a `struct stat` makes of the three times and of the other attributes.
-/

namespace DromozoaFuse.Convert

open Base Lua DromozoaFuse.Bind

variable {H M : Type} (I : Interp H)

/-! ## Both spellings of a time -/

/-- The access, modification and change time. -/
inductive Stamp
  | atim
  | mtim
  | ctim
  deriving DecidableEq, Repr

def Stamp.keys : Stamp → List Bytes
  | .atim => [bytes "st_atim", bytes "st_atimespec", bytes "st_atime"]
  | .mtim => [bytes "st_mtim", bytes "st_mtimespec", bytes "st_mtime"]
  | .ctim => [bytes "st_ctim", bytes "st_ctimespec", bytes "st_ctime"]

def Stamp.time : Stamp → Struct Convert.stat → Struct timespec
  | .atim, that => fun k => that (.st_atim k)
  | .mtim, that => fun k => that (.st_mtim k)
  | .ctim, that => fun k => that (.st_ctim k)

/-- The time that a decision stands for. A number whose floor is a time stands for the table with its
seconds and nanoseconds. -/
def Normalized (o : Value) (ev : List Event) (t : Struct timespec) : Option Value → Prop
  | some (.number n) => ∀ q, n.toDouble = .finite q → CInt.time_t.Mem ⌊q⌋ → floor_time I q = .ok t
  | d => Decided I o ev t d

/-- If the conversion returns, each time is what the first key with a number or a table stands for. -/
def TimesNormalized (p : Ptr M (Struct Convert.stat)) (r : Nat) (w : World H M)
    (out : Except Value (Bool × List Value) × World H M) : Prop :=
  ∀ b, out.1 = .ok b → ∀ s : Stamp, Normalized I (.table r) (recorded w out.2) (s.time (p.get out.2.mem))
    (decision (.table r) (recorded w out.2) s.keys)

variable {I} in
theorem TimesNormalized.number {p : Ptr M (Struct Convert.stat)} {r : Nat} {w : World H M}
    {out : Except Value (Bool × List Value) × World H M} (h : TimesNormalized I p r w out)
    {b : Bool × List Value} (hb : out.1 = .ok b) {s : Stamp} {n : Number} {q : ℚ}
    (hd : decision (.table r) (recorded w out.2) s.keys = some (.number n)) (hq : n.toDouble = .finite q)
    (hm : CInt.time_t.Mem ⌊q⌋) : floor_time I q = .ok (s.time (p.get out.2.mem)) := by
  have htime := h b hb s
  rw [hd] at htime
  exact htime q hq hm

/-- Some answer is refused, or no time is decided by a negative number with a fraction. -/
def NoNegativeFraction (r : Nat) (ev : List Event) : Prop :=
  (∃ e ∈ ev, Refused (acceptable I stat_steps zero) e) ∨
    ∀ (s : Stamp) n q, decision (.table r) ev s.keys = some (.number n) → n.toDouble = .finite q →
      CInt.time_t.Mem ⌊q⌋ → 0 ≤ q ∨ q.den = 1

theorem decode_stamp (p : Ptr M (Struct Convert.stat)) {r : Nat} {w w' : World H M}
    (h : (decode I p stat_steps (.table r)).exec w = (.ok true, w')) (s : Stamp) :
    Decided I (.table r) (recorded w w') (s.time (p.get w'.mem)) (decision (.table r) (recorded w w') s.keys) ∧
      Asked (.table r) (recorded w w') s.keys := by
  have hstep : ∀ (tv : timespec_member → stat_member) {key1 key2 key3 : String},
      Step.timespec (S := Convert.stat) tv key1 key2 key3 ∈ Target.stat.fields →
      s.keys = [bytes key1, bytes key2, bytes key3] →
      (∀ time : Struct timespec, (∀ k, p.get w'.mem (tv k) = (Convert.stat.store (tv k)).wrap (time k).val) →
        s.time (p.get w'.mem) = time) →
      Decided I (.table r) (recorded w w') (s.time (p.get w'.mem))
          (decision (.table r) (recorded w w') s.keys) ∧ Asked (.table r) (recorded w w') s.keys := by
    intro tv key1 key2 key3 hmem hkeys htime
    obtain ⟨time, hdecided, hasked, heq⟩ := Target.decode_time I .stat p h hmem
    rw [htime time heq, hkeys]
    exact ⟨hdecided, hasked⟩
  have hwrap : ∀ (time : Struct timespec) k, (timespec.store k).wrap (time k).val = time k :=
    fun time k => CInt.wrap_val (time k)
  cases s with
  | atim =>
      exact hstep .st_atim (Target.mem_fields (by simp [Target.steps, stat_steps]) rfl) rfl
        fun time heq => funext fun k => (heq k).trans (hwrap time k)
  | mtim =>
      exact hstep .st_mtim (Target.mem_fields (by simp [Target.steps, stat_steps]) rfl) rfl
        fun time heq => funext fun k => (heq k).trans (hwrap time k)
  | ctim =>
      exact hstep .st_ctim (Target.mem_fields (by simp [Target.steps, stat_steps]) rfl) rfl
        fun time heq => funext fun k => (heq k).trans (hwrap time k)

theorem times_normalized_iff (p : Ptr M (Struct Convert.stat)) (stk : List Value) (index : Int) (r : Nat)
    (h : slot stk index = some (.table r)) (w : World H M) :
    TimesNormalized I p r w (((convert I .stat p index).run stk).exec w) ↔
      NoNegativeFraction I r (recorded w (((convert I .stat p index).run stk).exec w).2) := by
  obtain ⟨ev, that', htr, -, -, -, hcases⟩ := Target.decode_audited I .stat p r w
  rw [Target.acceptable_fields] at hcases
  have hrec : recorded w ((decode I p stat_steps (.table r)).exec w).2 = ev := recorded_eq htr
  rw [convert_exec I .stat p h]
  simp only [NoNegativeFraction, Target.steps, hrec]
  rcases hcases with ⟨hok, hnot, -⟩ | ⟨err, herr, href⟩
  · have hok : ((decode I p stat_steps (.table r)).exec w).1 = .ok true := hok
    have hexec : (decode I p stat_steps (.table r)).exec w =
        (.ok true, ((decode I p stat_steps (.table r)).exec w).2) := Prod.ext hok rfl
    have hdecided := fun s => (decode_stamp I p hexec s).1
    rw [hrec] at hdecided
    have hno : ¬ ∃ e ∈ ev, Refused (acceptable I stat_steps zero) e := by
      rintro ⟨e, he, hr⟩
      exact hnot e he hr
    rw [or_iff_right hno]
    constructor
    · intro hnorm s n q hd hq hm
      have hout : ((decode I p stat_steps (.table r)).exec w).1.map (fun b => (b, stk)) = .ok (true, stk) := by
        rw [hok]
        rfl
      have hfloor := hnorm.number hout (by rw [hrec]; exact hd) hq hm
      have hcode := hdecided s
      rw [hd] at hcode
      rw [show s.time _ = timespec_of_number n.toDouble from hcode, hq] at hfloor
      exact (timespec_of_number_iff I hm).mp hfloor
    · intro hno _ _ s
      have hcode := hdecided s
      simp only [hrec]
      cases hd : decision (.table r) ev s.keys with
      | none =>
          rw [hd] at hcode
          exact hcode
      | some v =>
          rw [hd] at hcode
          cases v with
          | number n =>
              intro q hq hm
              rw [show s.time _ = timespec_of_number n.toDouble from hcode, hq]
              exact (timespec_of_number_iff I hm).mpr (hno s n q hd hq hm)
          | _ => exact hcode
  · refine iff_of_true ?_ (Or.inl href)
    intro b hb
    rw [show ((decode I p stat_steps (.table r)).exec w).1 = _ from herr] at hb
    cases hb

def accessed (q : ℚ) : World Unit (Struct Convert.stat) :=
  .single (fun k => if k = bytes "st_atim" then .number (.float (.finite q)) else .nil) () zero

def convert_accessed (q : ℚ) : Except Value (Bool × List Value) × World Unit (Struct Convert.stat) :=
  ((convert .idle .stat .whole 1).run [.table 0]).exec (accessed q)

theorem times_normalized_iff_positive :
    TimesNormalized .idle .whole 0 (accessed (3 / 2)) (convert_accessed (3 / 2)) ↔
      NoNegativeFraction (H := Unit) .idle 0 (recorded (accessed (3 / 2)) (convert_accessed (3 / 2)).2) :=
  times_normalized_iff .idle .whole [.table 0] 1 0 rfl (accessed (3 / 2))

/-- Half a second before the epoch. -/
theorem negative_fraction_kept :
    ¬ TimesNormalized .idle .whole 0 (accessed (-1 / 2)) (convert_accessed (-1 / 2)) := by
  intro h
  have hok : (convert_accessed (-1 / 2)).1 = .ok (true, [.table 0]) := by decide +kernel
  have hdecision : decision (.table 0) (recorded (accessed (-1 / 2)) (convert_accessed (-1 / 2)).2)
      Stamp.atim.keys = some (.number (.float (.finite (-1 / 2)))) := by decide +kernel
  have hsec : (Stamp.atim.time (Ptr.whole.get (convert_accessed (-1 / 2)).2.mem)
      timespec_member.tv_sec).val = 0 := by decide +kernel
  have hfloor : ⌊(-1 / 2 : ℚ)⌋ = -1 := by norm_num [Int.floor_eq_iff]
  have htime := h.number hok hdecision rfl (by rw [hfloor]; decide)
  rw [floor_time_eq, hfloor, Except.ok.injEq] at htime
  rw [← htime] at hsec
  exact absurd hsec (by decide)

/-! ## Well-formed attributes -/

def attributes : List stat_member :=
  [.st_dev, .st_ino, .st_mode, .st_nlink, .st_uid, .st_gid, .st_size, .st_blksize, .st_blocks]

theorem mem_attributes {k : stat_member} :
    k ∈ attributes ↔ Step.OPT_FIELD (S := Convert.stat) k ∈ stat_steps := Target.mem_integers (t := .stat)

/-- The field under exactly one of the keys of a time is the given table, the others are absent. -/
def SpeltBy (f : Bytes → Value) (s : Stamp) (r : Nat) : Prop :=
  ∃ key ∈ s.keys, f key = .table r ∧ ∀ key' ∈ s.keys, key' ≠ key → f key' = .nil

/-- While `Q` holds, the table has the fields of a time whose nanoseconds are less than a second. -/
def HoldsTime (Q : Heap H → Prop) (r : Nat) (t : Struct timespec) : Prop :=
  0 ≤ (t .tv_nsec).val ∧ (t .tv_nsec).val ≤ 999999999 ∧ ∃ g, Answers I Q (.table r) g ∧
    g (bytes "tv_sec") = .integer (t .tv_sec) ∧ g (bytes "tv_nsec") = .integer (t .tv_nsec)

/-- A time is absent, or a table under exactly one of its keys. -/
inductive Spelt (Q : Heap H → Prop) (f : Bytes → Value) (s : Stamp) : Option (Struct timespec) → Prop
  | absent (h : ∀ key ∈ s.keys, f key = .nil) : Spelt Q f s none
  | table {r t} (hkey : SpeltBy f s r) (ht : HoldsTime I Q r t) : Spelt Q f s (some t)

/-- Attributes with the fields `f`: integers in the range of their members, and three times. -/
structure WellFormed (Q : Heap H → Prop) (r : Nat) (f : Bytes → Value)
    (time : Stamp → Option (Struct timespec)) : Prop where
  answers : Answers I Q (.table r) f
  integers : ∀ k ∈ attributes, f (key (S := Convert.stat) k) = .nil ∨
    ∃ i, f (key (S := Convert.stat) k) = .integer i ∧ (Convert.stat.type k).Mem i.val
  times : ∀ s, Spelt I Q f s (time s)

/-- Every member has its own field, and is zero where there is none. -/
structure DecodedAs (f : Bytes → Value) (time : Stamp → Option (Struct timespec))
    (that : Struct Convert.stat) : Prop where
  present : ∀ k ∈ attributes, ∀ i, f (key (S := Convert.stat) k) = .integer i → (that k).val = i.val
  absent : ∀ k ∈ attributes, f (key (S := Convert.stat) k) = .nil → (that k).val = 0
  unread : (that .st_rdev).val = 0
  times : ∀ s, s.time that = (time s).getD zero

/-- A read of well-formed attributes: a steady object gave an acceptable answer. -/
def SteadyRead (Q : Heap H → Prop) (stage : Bytes → Value → Prop) (e : Event) : Prop :=
  ∃ o key g, e = .read o (.string key) (.ok (g key)) ∧ Answers I Q o g ∧ stage key (g key)

section

variable {I} {Q : Heap H → Prop} {r : Nat} {f : Bytes → Value} {time : Stamp → Option (Struct timespec)}

theorem WellFormed.field_integer (h : WellFormed I Q r f time) {k : stat_member} (hk : k ∈ attributes) :
    ∃ i, Bind.field_integer I (Convert.stat.type k) (member (S := Convert.stat) zero k) (Convert.stat.type k).min
      (Convert.stat.type k).max (f (key (S := Convert.stat) k)) = .ok i ∧
      (∀ j, f (key (S := Convert.stat) k) = .integer j → i.val = j.val) ∧
      (f (key (S := Convert.stat) k) = .nil → i.val = 0) := by
  have hzero : (member (S := Convert.stat) zero k).val = 0 :=
    CInt.wrap_of_mem (CInt.zero_mem (Convert.stat.bits_pos k))
  have hmem : (Convert.stat.type k).Mem 0 :=
    CInt.zero_mem (Nat.lt_of_lt_of_le (Convert.stat.bits_pos k) (Convert.stat.bits_le k))
  rcases h.integers k hk with hnil | ⟨i, hi, hm⟩
  · rw [hnil, field_integer_of_source I (field_source_nil I _), hzero]
    exact ⟨⟨0, hmem⟩, dif_pos hmem, fun j hj => (by cases hj), fun _ => rfl⟩
  · rw [hi, field_integer_of_source I (field_source_integer I _ i), dif_pos hm]
    refine ⟨_, rfl, fun j hj => ?_, fun hnil => by cases hnil⟩
    cases hj
    rfl

theorem stat_keys {key : Bytes} (h : key ∈ Target.stat.fields.flatMap Step.keys) :
    (∃ k ∈ attributes, key = Convert.key (S := Convert.stat) k) ∨ ∃ s : Stamp, key ∈ s.keys := by
  have hall : ∀ key ∈ Target.stat.fields.flatMap Step.keys,
      key ∈ attributes.map (Convert.key (S := Convert.stat)) ∨
        key ∈ [Stamp.atim, .mtim, .ctim].flatMap Stamp.keys := by decide +kernel
  rcases hall key h with hk | hs
  · obtain ⟨k, hmem, rfl⟩ := List.mem_map.mp hk
    exact Or.inl ⟨k, hmem, rfl⟩
  · obtain ⟨s, -, hs⟩ := List.mem_flatMap.mp hs
    exact Or.inr ⟨s, hs⟩

theorem WellFormed.holdsTime (h : WellFormed I Q r f time) {key : Bytes}
    (hkey : key ∈ Target.stat.fields.flatMap Step.keys) {r' : Nat} (hf : f key = .table r') :
    ∃ t, HoldsTime I Q r' t := by
  rcases stat_keys hkey with ⟨k, hk, rfl⟩ | ⟨s, hs⟩
  · rcases h.integers k hk with hnil | ⟨i, hi, -⟩
    · rw [hf] at hnil
      cases hnil
    · rw [hf] at hi
      cases hi
  · have htime := h.times s
    generalize time s = time? at htime
    cases htime with
    | absent habsent =>
        have hnil := habsent key hs
        rw [hf] at hnil
        cases hnil
    | @table r'' t hspelt ht =>
        obtain ⟨key', -, hf', hothers⟩ := hspelt
        by_cases hne : key = key'
        · rw [hne, hf'] at hf
          cases hf
          exact ⟨t, ht⟩
        · have hnil := hothers key hs hne
          rw [hf] at hnil
          cases hnil

theorem HoldsTime.fields {r : Nat} {t : Struct timespec} (h : HoldsTime I Q r t) :
    ∃ g, Answers I Q (.table r) g ∧ table_time I (g (bytes "tv_sec")) (g (bytes "tv_nsec")) = .ok t := by
  obtain ⟨h₀, h₁, g, hg, hsec, hnsec⟩ := h
  have heq : mk_timespec (t .tv_sec) (t .tv_nsec) = t := by
    funext k
    cases k <;> rfl
  exact ⟨g, hg, (congrArg₂ (table_time I) hsec hnsec).trans
    ((table_time_of_integers I ⟨h₀, h₁⟩).trans (congrArg Except.ok heq))⟩

theorem table_time_ok {sec nsec : Value} {t : Struct timespec} (h : table_time I sec nsec = .ok t) :
    (∃ i, Bind.field_integer I CInt.time_t (CInt.time_t.wrap 0) CInt.time_t.min CInt.time_t.max sec = .ok i) ∧
      ∃ i, Bind.field_integer I CInt.long (CInt.long.wrap 0) 0 999999999 nsec = .ok i := by
  unfold table_time at h
  split at h
  · rename_i i j hi hj
    exact ⟨⟨i, hi⟩, ⟨j, hj⟩⟩
  · cases h
  · cases h

theorem WellFormed.steady (h : WellFormed I Q r f time) {M : Type} (p : Ptr M (Struct Convert.stat)) :
    Steady Q (SteadyRead I Q (acceptable I Target.stat.fields zero)) (fun _ => True)
      (decode I p stat_steps (.table r)) := by
  have hkeys : stat_steps.flatMap Step.keys = Target.stat.fields.flatMap Step.keys := rfl
  have hdistinct := Target.stat.distinct
  refine decode_steady I p stat_steps (.of_answers h.answers fun key hkey => ⟨_, key, f, rfl, h.answers, ?_⟩)
    fun key hkey r' hf => ?_
  · rw [hkeys] at hkey
    refine ⟨?_, fun hsec => absurd (hsec ▸ hkey) hdistinct.tv_sec,
      fun hnsec => absurd (hnsec ▸ hkey) hdistinct.tv_nsec⟩
    rintro k hk rfl
    obtain ⟨i, hi, -⟩ := h.field_integer (mem_attributes.mpr (List.mem_filter.mp hk).1)
    exact ⟨i, hi⟩
  · rw [hkeys] at hkey
    obtain ⟨t, ht⟩ := h.holdsTime hkey hf.symm
    obtain ⟨g, hg, htime⟩ := ht.fields
    obtain ⟨hsec, hnsec⟩ := table_time_ok htime
    have hnot : ∀ {key : Bytes} {k : stat_member}, key ∉ Target.stat.fields.flatMap Step.keys →
        Step.OPT_FIELD (S := Convert.stat) k ∈ Target.stat.fields → key ≠ Convert.key (S := Convert.stat) k := by
      rintro key k hout hk rfl
      exact hout (List.mem_flatMap.mpr ⟨_, hk, by simp [Step.keys]⟩)
    refine ⟨_, .of_answers hg fun key hk => ⟨_, key, g, rfl, hg, ?_⟩⟩
    simp only [List.mem_cons, List.not_mem_nil, or_false] at hk
    rcases hk with rfl | rfl
    · exact ⟨fun k hk heq => absurd heq (hnot hdistinct.tv_sec hk), fun _ => hsec,
        fun heq => absurd heq (by decide)⟩
    · exact ⟨fun k hk heq => absurd heq (hnot hdistinct.tv_nsec hk), fun heq => absurd heq (by decide),
        fun _ => hnsec⟩

theorem SteadyRead.eq {stage : Bytes → Value → Prop} {o v : Value} {f : Bytes → Value} {key : Bytes}
    (h : SteadyRead I Q stage (.read o (.string key) (.ok v))) (ha : Answers I Q o f) {heap : Heap H}
    (hQ : Q heap) : v = f key := by
  obtain ⟨o', key', g, heq, hg, -⟩ := h
  simp only [Event.read.injEq, Value.string.injEq, Except.ok.injEq] at heq
  obtain ⟨rfl, rfl, rfl⟩ := heq
  rw [hg.unique ha hQ]

theorem SteadyRead.not_refused {stage : Bytes → Value → Prop} {e : Event} (h : SteadyRead I Q stage e) :
    ¬ Refused stage e := by
  obtain ⟨o, key, g, rfl, -, hstage⟩ := h
  exact fun href => href hstage

theorem Spelt.decided {s : Stamp} {t? : Option (Struct timespec)} (h : Spelt I Q f s t?)
    (ha : Answers I Q (.table r) f) {heap : Heap H} (hQ : Q heap) {ev : List Event}
    {stage : Bytes → Value → Prop} (hev : ∀ e ∈ ev, SteadyRead I Q stage e) {t : Struct timespec}
    (hdecided : Decided I (.table r) ev t (decision (.table r) ev s.keys))
    (hasked : Asked (.table r) ev s.keys) : t = t?.getD zero := by
  have hanswer : ∀ {o : Value} {g : Bytes → Value} {key : Bytes} {v : Value}, Answers I Q o g →
      .read o (.string key) (.ok v) ∈ ev → v = g key := fun hg hv => (hev _ hv).eq hg hQ
  have hdecision : ∀ {v}, decision (.table r) ev s.keys = some v →
      ∃ key ∈ s.keys, v = f key ∧ decisive (f key) = true := by
    intro v hv
    obtain ⟨key, hkey, hv⟩ := List.exists_of_findSome?_eq_some hv
    obtain ⟨hhead, hdec⟩ := Option.filter_eq_some_iff.mp hv
    obtain rfl := hanswer ha (mem_answers.mp (List.mem_of_mem_head? hhead))
    exact ⟨key, hkey, rfl, hdec⟩
  cases h with
  | absent habsent =>
      cases hd : decision (.table r) ev s.keys with
      | none =>
          rw [hd] at hdecided
          exact hdecided
      | some v =>
          obtain ⟨key, hkey, -, hdec⟩ := hdecision hd
          rw [habsent key hkey] at hdec
          cases hdec
  | @table r' t' hkey ht =>
      obtain ⟨key, hkey, hf, hothers⟩ := hkey
      cases hd : decision (.table r) ev s.keys with
      | none =>
          -- the key of the table has been asked for, and its answer decides
          have hnone := List.findSome?_eq_none_iff.mp hd key hkey
          cases hans : answers (.table r) ev key with
          | nil => exact absurd hans (hasked hd key hkey)
          | cons v vs =>
              have hv := hanswer ha (mem_answers.mp (hans ▸ List.mem_cons_self))
              rw [hans, hv, hf] at hnone
              cases hnone
      | some v =>
          obtain ⟨key', hkey', hv, hdec⟩ := hdecision hd
          have hsame : key' = key := by
            by_contra hne
            rw [hothers key' hkey' hne] at hdec
            cases hdec
          rw [hd, hv, hsame, hf] at hdecided
          obtain ⟨k, sec, nsec, hin, htime⟩ := hdecided
          obtain ⟨g, hg, hgtime⟩ := ht.fields
          have hsec : sec = g (bytes "tv_sec") := hanswer hg (hin.subset (by simp))
          have hnsec : nsec = g (bytes "tv_nsec") := hanswer hg (hin.subset (by simp))
          rw [hsec, hnsec, hgtime] at htime
          exact (Except.ok.inj htime).symm

theorem attributes_store {k : stat_member} (hk : k ∈ attributes) : Convert.stat.store k = Convert.stat.type k := by
  simp only [attributes, List.mem_cons, List.not_mem_nil, or_false] at hk
  rcases hk with rfl | rfl | rfl | rfl | rfl | rfl | rfl | rfl | rfl <;> rfl

theorem rdev_not_mem : stat_member.st_rdev ∉ (Target.stat.fields.flatMap Step.members : List stat_member) := by
  decide +kernel

/-- Well-formed attributes are converted, and every member has its own field. -/
theorem WellFormed.decode (h : WellFormed I Q r f time) {M : Type} (p : Ptr M (Struct Convert.stat))
    {w : World H M} (hQ : Q w.heap) :
    ∃ w', (Convert.decode I p stat_steps (.table r)).exec w = (.ok true, w') ∧
      DecodedAs f time (p.get w'.mem) := by
  obtain ⟨-, ⟨ev, htr, hev⟩, -⟩ := h.steady p w hQ
  obtain ⟨ev', that', htr', hmem, hframe, -, hcases⟩ := Target.decode_audited I .stat p r w
  obtain rfl : ev = ev' := List.append_cancel_left (htr.symm.trans htr')
  rcases hcases with ⟨hok, -, hdone⟩ | ⟨err, -, e, he, href⟩
  · have hexec : (Convert.decode I p stat_steps (.table r)).exec w =
        (.ok true, ((Convert.decode I p stat_steps (.table r)).exec w).2) := Prod.ext hok rfl
    refine ⟨_, hexec, ?_⟩
    have hget : p.get ((Convert.decode I p stat_steps (.table r)).exec w).2.mem = that' :=
      (congrArg p.get hmem).trans (p.get_set ..)
    have hrec : recorded w ((Convert.decode I p stat_steps (.table r)).exec w).2 = ev := recorded_eq htr
    have hinteger : ∀ k ∈ attributes, (∀ i, f (key (S := Convert.stat) k) = .integer i → (that' k).val = i.val) ∧
        (f (key (S := Convert.stat) k) = .nil → (that' k).val = 0) := by
      intro k hk
      obtain ⟨i, hi, hpresent, habsent⟩ := h.field_integer hk
      have hstep : Step.OPT_FIELD (S := Convert.stat) k ∈ Target.stat.fields :=
        List.mem_filter.mpr ⟨mem_attributes.mp hk, rfl⟩
      obtain ⟨⟨v, hv⟩, hall⟩ := hdone _ hstep
      obtain ⟨j, hj, hthat⟩ := hall v hv
      rw [(hev _ hv).eq h.answers hQ] at hj
      obtain rfl : i = j := Except.ok.inj (hi.symm.trans hj)
      have hval : (that' k).val = i.val := by
        rw [hthat, attributes_store hk, CInt.wrap_val]
      rw [hval]
      exact ⟨hpresent, habsent⟩
    rw [hget]
    refine ⟨fun k hk => (hinteger k hk).1, fun k hk => (hinteger k hk).2, ?_, fun s => ?_⟩
    · rw [hframe .st_rdev rdev_not_mem]
      rfl
    · obtain ⟨hdecided, hasked⟩ := decode_stamp I p hexec s
      rw [hrec, hget] at hdecided
      rw [hrec] at hasked
      exact (h.times s).decided h.answers hQ hev hdecided hasked
  · exact absurd href (hev e he).not_refused

end

end DromozoaFuse.Convert
