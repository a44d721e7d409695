import DromozoaFuse.Convert.Lemmas.Fields
import Mathlib.Data.Rat.Floor

/-!
# Times

The keys of a time are asked one after another until an answer decides. For each kind of answer, what
the time comes to.
-/

namespace DromozoaFuse.Convert

open Base Lua DromozoaFuse.Bind

variable {H M : Type} (I : Interp H) {S : Layout}

/-! ## The answer that decides -/

/-- A field that spells a time. -/
def decisive (v : Value) : Bool := v.type = .number || v.type = .table

def Event.answer? (o : Value) (key : Bytes) : Event → Option Value
  | .read o' key' (.ok v) => if o' = o ∧ key' = .string key then some v else none
  | _ => none

def answers (o : Value) (ev : List Event) (key : Bytes) : List Value := ev.filterMap (Event.answer? o key)

theorem answers_append (o : Value) (ev ev' : List Event) (key : Bytes) :
    answers o (ev ++ ev') key = answers o ev key ++ answers o ev' key := List.filterMap_append ..

theorem mem_answers {o : Value} {ev : List Event} {key : Bytes} {v : Value} :
    v ∈ answers o ev key ↔ .read o (.string key) (.ok v) ∈ ev := by
  rw [answers, List.mem_filterMap]
  constructor
  · rintro ⟨e, he, hv⟩
    unfold Event.answer? at hv
    split at hv
    · split at hv
      · rename_i hok
        obtain ⟨rfl, rfl⟩ := hok
        cases hv
        exact he
      · cases hv
    · cases hv
  · intro h
    exact ⟨_, h, by simp [Event.answer?]⟩

def decision (o : Value) (ev : List Event) (keys : List Bytes) : Option Value :=
  keys.findSome? fun key => (answers o ev key).head?.filter decisive

theorem decision_congr {o : Value} {ev ev' : List Event} {keys : List Bytes}
    (h : ∀ key ∈ keys, answers o ev key = answers o ev' key) : decision o ev keys = decision o ev' keys := by
  induction keys with
  | nil => rfl
  | cons key keys ih =>
      have ih := ih fun k hk => h k (List.mem_cons_of_mem _ hk)
      simp only [decision, List.findSome?_cons, h key (by simp)] at ih ⊢
      rw [ih]

/-! ## What the deciding answer makes of a time -/

/-- The time of a table whose fields `tv_sec` and `tv_nsec` are `sec` and `nsec`. -/
def table_time (sec nsec : Value) : Except String (Struct timespec) :=
  match field_integer I CInt.time_t (CInt.time_t.wrap 0) CInt.time_t.min CInt.time_t.max sec,
    field_integer I CInt.long (CInt.long.wrap 0) 0 999999999 nsec with
  | .ok tv_sec, .ok tv_nsec => .ok (mk_timespec tv_sec tv_nsec)
  | .error what, _ => .error what
  | _, .error what => .error what

/-- The answers that a time takes its value from are a table among those of `o`, and right after it the
fields of that table. -/
def FromTable (o : Value) (ev : List Event) (r : Nat) (t : Struct timespec) : Prop :=
  ∃ key sec nsec, [.read o key (.ok (.table r)), .read (.table r) (.string (bytes "tv_sec")) (.ok sec),
      .read (.table r) (.string (bytes "tv_nsec")) (.ok nsec)] <:+: ev ∧
    table_time I sec nsec = .ok t

/-- The time by the answer that decides. -/
def Decided (o : Value) (ev : List Event) (t : Struct timespec) : Option Value → Prop
  | none => t = zero
  | some (.number n) => t = timespec_of_number n.toDouble
  | some (.table r) => FromTable I o ev r t
  | some _ => False

theorem Decided.of_infix {o : Value} {ev ev' : List Event} {t : Struct timespec} {d : Option Value}
    (h : Decided I o ev t d) (hin : ev <:+: ev') : Decided I o ev' t d := by
  cases d with
  | none => exact h
  | some v =>
      cases v with
      | table r =>
          obtain ⟨key, sec, nsec, hsub, htime⟩ := h
          exact ⟨key, sec, nsec, hsub.trans hin, htime⟩
      | _ => exact h

/-! ## Times given as numbers -/

/-- `modf` drops the fraction towards zero. -/
theorem tdiv_eq_floor (q : ℚ) :
    q.num.tdiv q.den = if 0 ≤ q ∨ q.den = 1 then ⌊q⌋ else ⌊q⌋ + 1 := by
  have hpos : (0 : Int) < q.den := by exact_mod_cast q.den_pos
  have hdvd : (q.den : Int) ∣ q.num ↔ q.den = 1 := by
    rw [Int.natCast_dvd]
    constructor
    · intro h
      have hcoprime : Nat.gcd q.num.natAbs q.den = 1 := q.reduced
      exact Nat.dvd_one.mp (hcoprime ▸ Nat.dvd_gcd h (Nat.dvd_refl q.den))
    · intro h
      rw [h]
      exact Nat.one_dvd _
  rw [Rat.floor_def', Int.tdiv_eq_ediv]
  simp only [Rat.num_nonneg, hdvd, Int.sign_eq_one_of_pos hpos]
  split <;> simp

theorem tdiv_eq_floor_iff (q : ℚ) : q.num.tdiv q.den = ⌊q⌋ ↔ 0 ≤ q ∨ q.den = 1 := by
  rw [tdiv_eq_floor]
  split <;> simp_all

theorem truncate_of_nonneg {q : ℚ} (hq : 0 ≤ q) (hm : CInt.int64_t.Mem ⌊q⌋) :
    ((Double.finite q).truncate).val = ⌊q⌋ := by
  have hfloor := (tdiv_eq_floor_iff q).mpr (Or.inl hq)
  simp only [Double.truncate, hfloor, dif_pos hm]

theorem truncate_intCast {i : Int} (hm : CInt.int64_t.Mem i) : ((Double.finite (i : ℚ)).truncate).val = i := by
  simp [Double.truncate, hm]

def nanoseconds (q : ℚ) : Int := ⌊(q - ⌊q⌋) * 1000000000⌋

theorem nanoseconds_bounds (q : ℚ) : 0 ≤ nanoseconds q ∧ nanoseconds q ≤ 999999999 := by
  have hnonneg := Int.floor_le q
  have hlt := Int.lt_floor_add_one q
  constructor
  · exact Int.floor_nonneg.mpr (mul_nonneg (by linarith) (by norm_num))
  · have h : nanoseconds q < 1000000000 := Int.floor_lt.mpr (by push_cast; linarith)
    omega

theorem nanoseconds_mem (q : ℚ) : CInt.long.Mem (nanoseconds q) := by
  obtain ⟨h₀, h₁⟩ := nanoseconds_bounds q
  simp only [CInt.Mem, CInt.min, CInt.max, CInt.card, CInt.long]
  norm_num
  omega

/-- The time of the table whose fields are the seconds and the nanoseconds of a number. -/
def floor_time (q : ℚ) : Except String (Struct timespec) :=
  table_time I (.integer (CInt.int64_t.wrap ⌊q⌋)) (.integer (CInt.int64_t.wrap (nanoseconds q)))

theorem table_time_of_integers {sec nsec : CInt.int64_t.Val} (h : 0 ≤ nsec.val ∧ nsec.val ≤ 999999999) :
    table_time I (.integer sec) (.integer nsec) = .ok (mk_timespec sec nsec) := by
  have hsec : field_integer I CInt.time_t (CInt.time_t.wrap 0) CInt.time_t.min CInt.time_t.max
      (.integer sec) = .ok sec := by
    rw [field_integer_of_source I (field_source_integer I _ sec), dif_pos sec.mem]
  have hnsec : field_integer I CInt.long (CInt.long.wrap 0) 0 999999999 (.integer nsec) = .ok nsec := by
    simp only [field_integer, field_source_integer I, luaX_integer_traits_convert_eq fun _ => le_refl (0 : Int),
      if_pos h, CInt.wrap_val]
  rw [table_time, hsec, hnsec]

theorem floor_time_eq (q : ℚ) :
    floor_time I q = .ok (mk_timespec (CInt.time_t.wrap ⌊q⌋) (CInt.long.wrap (nanoseconds q))) := by
  have hbounds := nanoseconds_bounds q
  have hval := CInt.wrap_of_mem (nanoseconds_mem q)
  exact table_time_of_integers I (by rw [hval]; exact hbounds)

theorem timespec_of_number_iff {q : ℚ} (hm : CInt.time_t.Mem ⌊q⌋) :
    floor_time I q = .ok (timespec_of_number (.finite q)) ↔ 0 ≤ q ∨ q.den = 1 := by
  rw [floor_time_eq, Except.ok.injEq, ← tdiv_eq_floor_iff]
  constructor
  · intro h
    have hsec : (CInt.time_t.wrap ⌊q⌋).val = ((Double.finite (q.num.tdiv q.den : Int)).truncate).val :=
      congrArg CInt.Val.val (congrFun h .tv_sec)
    have hmem : CInt.int64_t.Mem (q.num.tdiv q.den) := by
      rw [tdiv_eq_floor]
      split
      · exact hm
      · rename_i hq
        have hneg : ⌊q⌋ < 0 := Int.floor_lt.mpr (by exact_mod_cast lt_of_not_ge fun h => hq (Or.inl h))
        simp only [CInt.Mem, CInt.min, CInt.max, CInt.card, CInt.long] at hm ⊢
        norm_num at hm ⊢
        omega
    rw [CInt.wrap_of_mem hm, truncate_intCast hmem] at hsec
    exact hsec.symm
  · intro h
    have hsec : CInt.time_t.wrap ⌊q⌋ = (Double.finite (⌊q⌋ : Int)).truncate :=
      CInt.Val.ext (by rw [CInt.wrap_of_mem hm, truncate_intCast hm])
    have hnonneg : 0 ≤ (q - ⌊q⌋) * 1000000000 := mul_nonneg (by linarith [Int.floor_le q]) (by norm_num)
    have hnsec : CInt.long.wrap (nanoseconds q) = (Double.finite ((q - ⌊q⌋) * 1000000000)).truncate :=
      CInt.Val.ext (by
        rw [CInt.wrap_of_mem (nanoseconds_mem q), truncate_of_nonneg hnonneg (nanoseconds_mem q), nanoseconds])
    simp only [timespec_of_number, h, hsec, hnsec]
/-! ## The conversion of a time -/

def first_timespec (o : Value) : List Bytes → HostM H M (Struct timespec)
  | [] => return zero
  | key :: keys => do
      match ← timespec_key I o key with
      | some tv => return tv
      | none => first_timespec o keys

theorem timespec_keys_eq (o : Value) (key1 key2 key3 : Bytes) :
    (timespec_keys I o key1 key2 key3 : HostM H M _) = first_timespec I o [key1, key2, key3] := rfl

/-- The field of a time is read, and what it says is `t?`. -/
inductive KeyRead (o : Value) (key : Bytes) : List Event → Option (Struct timespec) → Prop
  | undecided {v} (hv : decisive v = false) : KeyRead o key [.read o (.string key) (.ok v)] none
  | number {n} : KeyRead o key [.read o (.string key) (.ok (.number n))] (some (timespec_of_number n.toDouble))
  | table {r sec nsec t} (ht : table_time I sec nsec = .ok t) :
      KeyRead o key [.read o (.string key) (.ok (.table r)), .read (.table r) (.string (bytes "tv_sec")) (.ok sec),
        .read (.table r) (.string (bytes "tv_nsec")) (.ok nsec)] (some t)

theorem opt_integer_field_ok {T : CInt} {o : Value} {key : Bytes} {d : T.Val} {min max : Int} {i : T.Val}
    {w w' : World H M} (h : (opt_integer_field I T o key d min max).exec w = (.ok i, w')) :
    ∃ v, field_integer I T d min max v = .ok i ∧ w'.mem = w.mem ∧
      w'.trace = w.trace ++ [.read o (.string key) (.ok v)] := by
  rw [opt_integer_field_exec] at h
  cases hv : (I.lookup o (.string key) w.heap).1 with
  | error e =>
      rw [hv] at h
      cases h
  | ok v =>
      rw [hv] at h
      dsimp only at h
      cases hi : field_integer I T d min max v with
      | error what =>
          rw [hi] at h
          cases h
      | ok j =>
          rw [hi] at h
          cases h
          exact ⟨v, hi, rfl, by simp [answered, hv]⟩

theorem timespec_key_ok {o : Value} {key : Bytes} {t? : Option (Struct timespec)} {w w' : World H M}
    (h : (timespec_key I o key).exec w = (.ok t?, w')) :
    ∃ ev, w'.trace = w.trace ++ ev ∧ w'.mem = w.mem ∧ KeyRead I o key ev t? := by
  obtain ⟨v, w₁, hv, h⟩ := Prog.exec_bind_ok h
  rw [gettable_exec, Prod.mk.injEq] at hv
  obtain ⟨hlookup, rfl⟩ := hv
  have htr : (answered I w o (.string key)).trace = w.trace ++ [.read o (.string key) (.ok v)] := by
    simp [answered, hlookup]
  cases v with
  | number n =>
      cases h
      exact ⟨_, htr, rfl, .number⟩
  | table r =>
      obtain ⟨tv_sec, w₂, hx₂, h⟩ := Prog.exec_bind_ok h
      obtain ⟨tv_nsec, w₃, hx₃, h⟩ := Prog.exec_bind_ok h
      obtain ⟨sec, hsec, hmem₂, htr₂⟩ := opt_integer_field_ok I hx₂
      obtain ⟨nsec, hnsec, hmem₃, htr₃⟩ := opt_integer_field_ok I hx₃
      cases h
      have htime : table_time I sec nsec = .ok (mk_timespec tv_sec tv_nsec) := by
        simp only [table_time, hsec, hnsec]
      refine ⟨_, ?_, hmem₃.trans hmem₂, .table (r := r) htime⟩
      rw [htr₃, htr₂, htr]
      simp
  | _ =>
      cases h
      exact ⟨_, htr, rfl, .undecided rfl⟩

theorem KeyRead.answers_undecided {o : Value} {key : Bytes} {ev : List Event} (h : KeyRead I o key ev none) :
    ∃ v, answers o ev key = [v] ∧ decisive v = false := by
  cases h with
  | @undecided v hv => exact ⟨v, by simp [answers, Event.answer?], hv⟩

theorem KeyRead.answers_of_ne {o : Value} {key : Bytes} {ev : List Event} {key' : Bytes}
    (h : KeyRead I o key ev none) (hne : key' ≠ key) : answers o ev key' = [] := by
  cases h
  simp [answers, Event.answer?, hne.symm]

/-- If no answer decides, every key has been asked for. -/
def Asked (o : Value) (ev : List Event) (keys : List Bytes) : Prop :=
  decision o ev keys = none → ∀ key ∈ keys, answers o ev key ≠ []

theorem first_timespec_ok {o : Value} {keys : List Bytes} (hnodup : keys.Nodup) {t : Struct timespec}
    {w w' : World H M} (h : (first_timespec I o keys).exec w = (.ok t, w')) :
    ∃ ev, w'.trace = w.trace ++ ev ∧ w'.mem = w.mem ∧ Decided I o ev t (decision o ev keys) ∧ Asked o ev keys := by
  induction keys generalizing w with
  | nil =>
      cases h
      exact ⟨[], by simp, rfl, rfl, by simp [Asked]⟩
  | cons key keys ih =>
      rw [List.nodup_cons] at hnodup
      obtain ⟨t?, w₁, hkey, h⟩ := Prog.exec_bind_ok h
      obtain ⟨ev, htr, hmem, hread⟩ := timespec_key_ok I hkey
      cases t? with
      | some tv =>
          cases h
          refine ⟨ev, htr, hmem, ?_⟩
          rw [Asked]
          cases hread with
          | @number n =>
              have hdecision : decision o [.read o (.string key) (.ok (.number n))] (key :: keys) =
                  some (.number n) := by
                simp [decision, answers, Event.answer?, decisive, Value.type]
              rw [hdecision]
              exact ⟨rfl, by simp⟩
          | @table r sec nsec t ht =>
              have hdecision : decision o [.read o (.string key) (.ok (.table r)),
                  .read (.table r) (.string (bytes "tv_sec")) (.ok sec),
                  .read (.table r) (.string (bytes "tv_nsec")) (.ok nsec)] (key :: keys) = some (.table r) := by
                simp [decision, answers, Event.answer?, decisive, Value.type]
              rw [hdecision]
              exact ⟨⟨_, sec, nsec, List.infix_refl _, ht⟩, by simp⟩
      | none =>
          obtain ⟨ev', htr', hmem', hdecided, hasked⟩ := ih hnodup.2 h
          refine ⟨ev ++ ev', by rw [htr', htr, List.append_assoc], hmem'.trans hmem, ?_⟩
          have hrest : decision o (ev ++ ev') keys = decision o ev' keys := by
            refine decision_congr fun k hk => ?_
            have hne : k ≠ key := fun heq => hnodup.1 (heq ▸ hk)
            rw [answers_append, hread.answers_of_ne I hne, List.nil_append]
          obtain ⟨v, hv, hundecided⟩ := hread.answers_undecided I
          have hfirst : decision o (ev ++ ev') (key :: keys) = decision o (ev ++ ev') keys := by
            simp [decision, answers_append, hv, hundecided]
          rw [Asked, hfirst, hrest]
          refine ⟨hdecided.of_infix I (List.suffix_append ev ev').isInfix, fun hnone k hk => ?_⟩
          rw [answers_append]
          rcases List.mem_cons.mp hk with rfl | hk
          · simp [hv]
          · exact List.append_ne_nil_of_right_ne_nil _ (hasked hnone k hk)

/-! ## The times of a conversion -/

/-- No two statements have a key or a member in common, and none has a key of the fields of a time. -/
structure Distinct (steps : List (Step S)) : Prop where
  memset : .memset ∉ steps
  members : (steps.flatMap Step.members).Nodup
  keys : (steps.flatMap Step.keys).Nodup
  tv_sec : bytes "tv_sec" ∉ steps.flatMap Step.keys
  tv_nsec : bytes "tv_nsec" ∉ steps.flatMap Step.keys

theorem Target.distinct (t : Target) : Distinct t.fields :=
  ⟨t.memset_not_mem, t.members_nodup, t.keys_nodup, t.tv_sec_not_mem, t.tv_nsec_not_mem⟩

theorem Distinct.sublist {steps steps' : List (Step S)} (h : Distinct steps) (hsub : steps'.Sublist steps) :
    Distinct steps' where
  memset := fun hm => h.memset (hsub.subset hm)
  members := h.members.sublist (hsub.flatMap _)
  keys := h.keys.sublist (hsub.flatMap _)
  tv_sec := fun hm => h.tv_sec ((hsub.flatMap _).subset hm)
  tv_nsec := fun hm => h.tv_nsec ((hsub.flatMap _).subset hm)

variable (p : Ptr M (Struct S))

theorem steps_frame {o : Value} {steps : List (Step S)} (hd : Distinct steps) {w w' : World H M}
    (h : (steps.forM (Step.exec I p o) : HostM H M Unit).exec w = (.ok (), w')) :
    ∃ ev, w'.trace = w.trace ++ ev ∧
      (∀ k, k ∉ steps.flatMap Step.members → p.get w'.mem k = p.get w.mem k) ∧
      ∀ o' key, key ∉ steps.flatMap Step.keys → key ≠ bytes "tv_sec" → key ≠ bytes "tv_nsec" →
        answers o' ev key = [] := by
  obtain ⟨ev, that', htr, hmem, hframe, hkeys, -, -⟩ := steps_audited I p (o := o) steps w
    (acceptable_spec I (p.get w.mem) hd.memset hd.keys hd.tv_sec hd.tv_nsec) hd.members hd.keys hd.tv_sec
    hd.tv_nsec
  rw [h] at htr hmem
  refine ⟨ev, htr, fun k hk => ?_, fun o' key hkey hsec hnsec => ?_⟩
  · rw [show w'.mem = p.set w.mem that' from hmem, p.get_set]
    exact hframe k hk
  · refine List.eq_nil_iff_forall_not_mem.mpr fun v hv => ?_
    exact not_read hkeys hkey hsec hnsec o' v (mem_answers.mp hv)

theorem forM_ok {α : Type} {f : α → HostM H M Unit} {before after : List α} {x : α} {w w' : World H M}
    (h : ((before ++ x :: after).forM f : HostM H M Unit).exec w = (.ok (), w')) :
    ∃ w₁ w₂, (before.forM f : HostM H M Unit).exec w = (.ok (), w₁) ∧ (f x).exec w₁ = (.ok (), w₂) ∧
      (after.forM f : HostM H M Unit).exec w₂ = (.ok (), w') := by
  have hsplit : ((before ++ x :: after).forM f : HostM H M Unit) =
      (do before.forM f; f x; after.forM f) := by simp
  rw [hsplit] at h
  obtain ⟨⟨⟩, w₁, hbefore, h⟩ := Prog.exec_bind_ok h
  obtain ⟨⟨⟩, w₂, hx, hafter⟩ := Prog.exec_bind_ok h
  exact ⟨w₁, w₂, hbefore, hx, hafter⟩

theorem timespec_ok {o : Value} {tv : timespec_member → S.Member} {key1 key2 key3 : String}
    (hnodup : [bytes key1, bytes key2, bytes key3].Nodup) (htv : tv .tv_sec ≠ tv .tv_nsec) {w w' : World H M}
    (h : ((Step.timespec tv key1 key2 key3).exec I p o).exec w = (.ok (), w')) :
    ∃ ev t, w'.trace = w.trace ++ ev ∧
      Decided I o ev t (decision o ev [bytes key1, bytes key2, bytes key3]) ∧
      Asked o ev [bytes key1, bytes key2, bytes key3] ∧
      ∀ k, p.get w'.mem (tv k) = (S.store (tv k)).wrap (t k).val := by
  obtain ⟨t, w₁, ht, h⟩ := Prog.exec_bind_ok h
  rw [timespec_keys_eq] at ht
  obtain ⟨ev, htr, hmem, hdecided, hasked⟩ := first_timespec_ok I hnodup ht
  rw [write_exec] at h
  cases h
  refine ⟨ev, t, htr, hdecided, hasked, fun k => ?_⟩
  rw [p.get_set]
  cases k with
  | tv_sec => rw [assign_of_ne _ htv, assign_self]
  | tv_nsec => rw [assign_self]

theorem Target.decode_time (t : Target) (p : Ptr M (Struct t.layout)) {r : Nat} {w w' : World H M}
    (h : (decode I p t.steps (.table r)).exec w = (.ok true, w')) {tv : timespec_member → t.layout.Member}
    {key1 key2 key3 : String} (hs : .timespec tv key1 key2 key3 ∈ t.fields) :
    ∃ time, Decided I (.table r) (recorded w w') time
        (decision (.table r) (recorded w w') [bytes key1, bytes key2, bytes key3]) ∧
      Asked (.table r) (recorded w w') [bytes key1, bytes key2, bytes key3] ∧
      ∀ k, p.get w'.mem (tv k) = (t.layout.store (tv k)).wrap (time k).val := by
  have hdecode : (decode I p t.steps (.table r) : HostM H M Bool) =
      (do t.steps.forM (Step.exec I p (.table r)); return true) := rfl
  rw [hdecode] at h
  obtain ⟨⟨⟩, w'', h, hpure⟩ := Prog.exec_bind_ok h
  cases hpure
  rw [t.steps_exec] at h
  obtain ⟨before, after, hsplit⟩ := List.append_of_mem hs
  have hd := t.distinct
  rw [hsplit] at h hd
  obtain ⟨w₁, w₂, hbefore, htime, hafter⟩ := forM_ok h
  have hmembers := hd.members
  have hkeys := hd.keys
  simp only [List.flatMap_append, List.flatMap_cons, List.nodup_append] at hmembers hkeys
  obtain ⟨-, ⟨hown, -, hlater⟩, -⟩ := hmembers
  obtain ⟨-, ⟨hnodup, -, hlaterkeys⟩, hearlier⟩ := hkeys
  obtain ⟨ev₁, htr₁, -, hkeys₁⟩ := steps_frame I p (hd.sublist (List.sublist_append_left ..)) hbefore
  obtain ⟨ev₂, htr₂, hframe₂, hkeys₂⟩ := steps_frame I p
    (hd.sublist ((List.sublist_cons_self ..).trans (List.sublist_append_right ..))) hafter
  obtain ⟨ev, time, htr, hdecided, hasked, htv⟩ := timespec_ok I p hnodup (by simpa [Step.members] using hown) htime
  have hrec : recorded w w' = ev₁ ++ ev ++ ev₂ := recorded_eq (by rw [htr₂, htr, htr₁]; simp)
  have hanswers : ∀ key ∈ [bytes key1, bytes key2, bytes key3],
      answers (.table r) (ev₁ ++ ev ++ ev₂) key = answers (.table r) ev key := by
    intro key hkey
    have hin : key ∈ (before ++ .timespec tv key1 key2 key3 :: after).flatMap Step.keys := by
      simp only [List.flatMap_append, List.flatMap_cons, List.mem_append]
      exact Or.inr (Or.inl hkey)
    have hsec : key ≠ bytes "tv_sec" := fun heq => hd.tv_sec (heq ▸ hin)
    have hnsec : key ≠ bytes "tv_nsec" := fun heq => hd.tv_nsec (heq ▸ hin)
    have hout₁ : key ∉ before.flatMap Step.keys := fun hk =>
      hearlier key hk key (List.mem_append_left _ hkey) rfl
    have hout₂ : key ∉ after.flatMap Step.keys := fun hk => hlaterkeys key hkey key hk rfl
    rw [answers_append, answers_append, hkeys₁ _ _ hout₁ hsec hnsec, hkeys₂ _ _ hout₂ hsec hnsec]
    simp
  have hdecision := decision_congr hanswers
  rw [hrec]
  refine ⟨time, ?_, fun hnone key hkey => ?_, fun k => ?_⟩
  · rw [hdecision]
    exact hdecided.of_infix I ⟨ev₁, ev₂, rfl⟩
  · rw [hanswers key hkey]
    exact hasked (hdecision ▸ hnone) key hkey
  · rw [hframe₂ (tv k) fun hk => hlater (tv k) (by cases k <;> simp [Step.members]) (tv k) hk rfl, htv]

end DromozoaFuse.Convert
