import DromozoaFuse.Operations.Lemmas.Buffers

/-!
# Outcomes of a protected call

The status that a callback makes of an outcome, and the status that the outcome stands for. A number
stands for itself if it is integral; any other outcome has a status of the operation, or `-ENOSYS`.
-/

namespace DromozoaFuse.Operations

open Base Lua DromozoaFuse.Bind DromozoaFuse.Convert Fill

variable {X : Type} (I : Interp (Host X))

/-! ## Numbers -/

/-- The integer that a number is, however large. -/
def integral (n : Number) : Option Int :=
  match n.rational with
  | some q => if q.den = 1 then some q.num else none
  | none => none

theorem integral_integer (i : CInt.int64_t.Val) : integral (.integer i) = some i.val := rfl

theorem integral_of_toInteger? {n : Number} {i : CInt.int64_t.Val} (h : n.toInteger? = some i) :
    integral n = some i.val := by
  rw [integral, Number.rational_of_toInteger? h]
  rfl

/-- An integral number that is no integer of Lua is beyond 64 bits. -/
theorem toInteger?_eq_none {n : Number} {i : Int} (h : integral n = some i) :
    n.toInteger? = none ↔ ¬ CInt.int64_t.Mem i := by
  cases n with
  | integer j =>
      rw [integral_integer, Option.some.injEq] at h
      rw [← h]
      simp only [Number.toInteger?, reduceCtorEq, false_iff, not_not]
      exact j.mem
  | float x =>
      cases x with
      | finite q =>
          simp only [integral, Number.rational, Option.ite_none_right_eq_some, Option.some.injEq] at h
          obtain ⟨hden, rfl⟩ := h
          simp [Number.toInteger?, hden]
      | infinite b => cases h
      | nan => cases h

/-- The number comes out of the conversion to `int` as it is, or as something negative. -/
def Narrow (i : Int) : Prop := CInt.int.Mem i ∨ 2 ^ 31 ≤ i % 2 ^ 32

def StandsFor (i : Int) (r : CInt.int.Val) : Prop :=
  (CInt.int.Mem i → r.val = i) ∧ (¬ CInt.int.Mem i → r.val < 0)

theorem wrap_standsFor_iff (i : Int) : StandsFor i (CInt.int.wrap i) ↔ Narrow i := by
  have hwrap : (CInt.int.wrap i).val < 0 ↔ 2 ^ 31 ≤ i % 2 ^ 32 := by
    simp only [CInt.wrap, CInt.min, CInt.card, CInt.int]
    norm_num
    omega
  rw [StandsFor, Narrow, hwrap]
  constructor
  · rintro ⟨-, hbeyond⟩
    by_cases hm : CInt.int.Mem i
    · exact Or.inl hm
    · exact Or.inr (hbeyond hm)
  · rintro (hm | hneg)
    · exact ⟨fun _ => CInt.wrap_of_mem hm, fun hn => absurd hm hn⟩
    · exact ⟨fun hm => CInt.wrap_of_mem hm, fun _ => hneg⟩

/-! ## What a callback makes of an outcome -/

/-- The status of an operation that has got the string it expects. -/
def Other.own : Other → Bytes → CInt.int.Val
  | .readlink _, _ => CInt.int.wrap 0
  | .read _, s => CInt.int.wrap s.length
  | .xattr size, s => if s.length > size.val.toNat then ERANGE else CInt.int.wrap s.length
  | _, _ => ENOSYS

theorem Other.fill_status {o : Other} {size : CInt.size_t.Val} (h : o.size? = some size) (s : Bytes)
    (buffer : Nat → UInt8) : (o.fill s buffer).1 = o.own s := by
  cases o with
  | xattr n =>
      simp only [fill, own]
      split <;> rfl
  | readlink n | read n => rfl
  | nil d | stat | statvfs => cases h

/-- The status of a returned value that is no integer, if its conversion succeeds. -/
def Other.judge (o : Other) (v : Value) : CInt.int.Val :=
  match o with
  | .nil d => if v = .nil then d else ENOSYS
  | .stat | .statvfs => if v.type = .table then CInt.int.wrap 0 else ENOSYS
  | o => ((I.tolstring v).map o.own).getD ENOSYS

/-- The status of a callback whose conversions, if any, succeed. -/
def Other.result (o : Other) : Except Value Value → CInt.int.Val
  | .ok v => (status v).getD (o.judge I v)
  | .error e => (status e).getD ENOSYS

theorem Other.fill_judge {o : Other} {size : CInt.size_t.Val} (ho : o.size? = some size) {v : Value}
    {w w' : World (Host X) Memory} {i : Option CInt.int.Val}
    (h : (match I.tolstring v with
      | some s => do
          let w ← get
          modifyMem fun m => { m with buffer := (o.fill s w.mem.buffer).2 }
          return some (o.fill s w.mem.buffer).1
      | none => return none : StatelessM X (Option CInt.int.Val)).exec w = (.ok i, w')) :
    i.getD ENOSYS = ((I.tolstring v).map o.own).getD ENOSYS := by
  cases hs : I.tolstring v with
  | none =>
      rw [hs] at h
      cases h
      rfl
  | some s =>
      rw [hs] at h
      cases h
      exact o.fill_status ho s _

theorem decode_ok {S : Layout} {p : Ptr Memory (Struct S)} {steps : List (Step S)} {v : Value}
    {w w' : World (Host X) Memory} {b : Bool} (h : (decode I p steps v).exec w = (.ok b, w')) :
    b = true ↔ v.type = .table := by
  unfold decode at h
  by_cases hv : v.type = .table
  · rw [if_pos hv] at h
    obtain ⟨_, _, -, hb⟩ := Prog.exec_bind_ok h
    cases hb
    exact iff_of_true rfl hv
  · rw [if_neg hv] at h
    cases h
    exact iff_of_false Bool.false_ne_true hv

theorem Other.finish_judge {o : Other} {v : Value} {w w' : World (Host X) Memory} {i : Option CInt.int.Val}
    (h : (o.finish I v).exec w = (.ok i, w')) : i.getD ENOSYS = o.judge I v := by
  cases o with
  | nil d =>
      simp only [finish, Prog.exec_pure, Prod.mk.injEq, Except.ok.injEq] at h
      rw [← h.1, judge]
      split <;> rfl
  | stat | statvfs =>
      simp only [finish] at h
      obtain ⟨b, w₁, hdecode, hpure⟩ := Prog.exec_bind_ok h
      cases hpure
      simp only [judge, ← decode_ok I hdecode]
      split <;> rfl
  | readlink n => exact fill_judge I (o := .readlink n) rfl h
  | read n => exact fill_judge I (o := .read n) rfl h
  | xattr n => exact fill_judge I (o := .xattr n) rfl h

theorem Other.answer_result {o : Other} {reply : Except Value Value} {w w' : World (Host X) Memory}
    {r : CInt.int.Val} (h : (o.answer I reply).exec w = (.ok r, w')) : r = o.result I reply := by
  cases reply with
  | error e =>
      simp only [answer] at h
      rw [result]
      cases hs : status e with
      | some i | none =>
          rw [hs] at h
          cases h
          rfl
  | ok v =>
      simp only [answer] at h
      rw [result]
      cases hs : status v with
      | some i =>
          rw [hs] at h
          cases h
          rfl
      | none =>
          rw [hs] at h
          obtain ⟨i, w₁, hfinish, hrest⟩ := Prog.exec_bind_ok h
          rw [Option.getD_none, ← o.finish_judge I hfinish]
          cases i with
          | some i | none =>
              cases hrest
              rfl

/-! ## The law -/

def number? : Except Value Value → Option Number
  | .ok (.number n) | .error (.number n) => some n
  | _ => none

/-- The status of an outcome that is no integral number. -/
def Other.Demands (o : Other) (default : Int) (reply : Except Value Value) (r : CInt.int.Val) : Prop :=
  match o, reply with
  | .nil _, .ok .nil => r.val = default
  | .stat, .ok (.table _) | .statvfs, .ok (.table _) => r.val = 0
  | .readlink size, .ok (.string s) => r = (Other.readlink size).own s
  | .read size, .ok (.string s) => r = (Other.read size).own s
  | .xattr size, .ok (.string s) => r = (Other.xattr size).own s
  | _, _ => r = ENOSYS

/-- The status of an outcome. -/
def Lawful (o : Other) (default : Int) (reply : Except Value Value) (r : CInt.int.Val) : Prop :=
  match (number? reply).bind integral with
  | some i => StandsFor i r
  | none => o.Demands default reply r

/-- The integer comes out of `int` right; a number that is no integer of Lua is not given to an operation
that takes its text for a string, but for an integral one whose text is refused; and the default of `write`
is within `int`. -/
def Conforming (o : Other) (default : Int) (reply : Except Value Value) : Prop :=
  match number? reply with
  | some n =>
      match n.toInteger? with
      | some i => Narrow i.val
      | none => reply = .ok (.number n) → o.size?.isSome →
          (integral n).isSome ∧ ∃ size, o = .xattr size ∧ size.val.toNat < (I.number2str n).length
  | none => reply = .ok .nil → ∀ d, o = .nil d → CInt.int.Mem default

theorem status_number (n : Number) : status (.number n) = n.toInteger?.map fun i => CInt.int.wrap i.val := rfl

theorem Other.own_neg_iff {o : Other} {size : CInt.size_t.Val} (ho : o.size? = some size) {s : Bytes}
    (hs : s.length < 2 ^ 31) : (o.own s).val < 0 ↔ ∃ n, o = .xattr n ∧ n.val.toNat < s.length := by
  have hlength : (CInt.int.wrap s.length).val = s.length := by
    refine CInt.wrap_of_mem ?_
    simp only [CInt.Mem, CInt.min, CInt.max, CInt.card, CInt.int]
    norm_num
    omega
  cases o with
  | readlink n => simp [own, CInt.wrap_of_mem (by decide : CInt.int.Mem 0)]
  | read n =>
      simp only [own, hlength, reduceCtorEq, false_and, exists_false, iff_false]
      omega
  | xattr n =>
      simp only [own, Other.xattr.injEq]
      constructor
      · intro hneg
        by_contra hnot
        rw [if_neg fun h => hnot ⟨n, rfl, h⟩, hlength] at hneg
        omega
      · rintro ⟨_, rfl, hlt⟩
        rw [if_pos hlt]
        decide
  | nil d | stat | statvfs => cases ho

theorem Other.own_ne_ENOSYS {o : Other} {size : CInt.size_t.Val} (ho : o.size? = some size) {s : Bytes}
    (hs : s.length < 2 ^ 31) : o.own s ≠ ENOSYS := by
  intro heq
  have hneg : (o.own s).val < 0 := by
    rw [heq]
    decide
  obtain ⟨n, rfl, hlt⟩ := (o.own_neg_iff ho hs).mp hneg
  rw [own, if_pos hlt] at heq
  exact absurd heq (by decide)

theorem Other.judge_number_iff (hnum : ∀ n, (I.number2str n).length < 2 ^ 31) (o : Other) (default : Int)
    {n : Number} (hn : n.toInteger? = none) :
    Lawful o default (.ok (.number n)) (o.judge I (.number n)) ↔
      (o.size?.isSome →
        (integral n).isSome ∧ ∃ size, o = .xattr size ∧ size.val.toNat < (I.number2str n).length) := by
  have hbeyond : ∀ i, integral n = some i → ∀ r, StandsFor i r ↔ r.val < 0 := by
    intro i hi r
    have hnot : ¬ CInt.int.Mem i := fun hm => (toInteger?_eq_none hi).mp hn (hm.widen (by decide))
    exact ⟨fun h => h.2 hnot, fun h => ⟨fun hm => absurd hm hnot, fun _ => h⟩⟩
  have hrefused : Lawful o default (.ok (.number n)) ENOSYS := by
    unfold Lawful
    change match integral n with | some i => StandsFor i ENOSYS | none => _
    cases hi : integral n with
    | some i => exact (hbeyond i hi _).mpr (by decide)
    | none => cases o <;> rfl
  have htext : ∀ size, o.size? = some size → (Lawful o default (.ok (.number n)) (o.own (I.number2str n)) ↔
      (integral n).isSome ∧ ∃ size, o = .xattr size ∧ size.val.toNat < (I.number2str n).length) := by
    intro size ho
    unfold Lawful
    change (match integral n with | some i => StandsFor i _ | none => o.Demands default (.ok (.number n)) _) ↔ _
    cases hi : integral n with
    | some i =>
        rw [← o.own_neg_iff ho (hnum n)]
        simp [hbeyond i hi]
    | none =>
        have hdemands : o.Demands default (.ok (.number n)) (o.own (I.number2str n)) ↔
            o.own (I.number2str n) = ENOSYS := by
          cases o <;> rfl
        rw [hdemands]
        exact iff_of_false (o.own_ne_ENOSYS ho (hnum n)) (by simp)
  cases o with
  | nil d | stat | statvfs => exact iff_of_true hrefused (by simp [size?])
  | readlink size | read size | xattr size =>
      refine (htext size rfl).trans ?_
      simp [size?]

theorem Other.judge_other_iff {o : Other} {default : Int} (hdefault : ∀ d, o = .nil d → d = CInt.int.wrap default)
    {v : Value} (hv : number? (.ok v) = none) :
    o.Demands default (.ok v) (o.judge I v) ↔ (v = .nil → ∀ d, o = .nil d → CInt.int.Mem default) := by
  cases o with
  | nil d =>
      obtain rfl := hdefault d rfl
      cases v with
      | nil => simp [Demands, judge, CInt.wrap_val_iff]
      | number n => cases hv
      | _ => simp [Demands, judge]
  | stat | statvfs =>
      cases v <;> simp [Demands, judge, Value.type, CInt.wrap_of_mem (by decide : CInt.int.Mem 0)]
  | readlink size | read size | xattr size =>
      cases v with
      | number n => cases hv
      | _ => simp [Demands, judge, Interp.tolstring]

/-- The status that a callback makes of an outcome is the one it stands for exactly when the outcome
conforms. -/
theorem lawful_iff (hnum : ∀ n, (I.number2str n).length < 2 ^ 31) {o : Other} {default : Int}
    (hdefault : ∀ d, o = .nil d → d = CInt.int.wrap default) (reply : Except Value Value) :
    Lawful o default reply (o.result I reply) ↔ Conforming I o default reply := by
  unfold Conforming
  cases hnumber : number? reply with
  | some n =>
      have hreply : reply = .ok (.number n) ∨ reply = .error (.number n) := by
        rcases reply with (v | v) <;> cases v <;> cases hnumber
        · exact Or.inr rfl
        · exact Or.inl rfl
      dsimp only
      cases hn : n.toInteger? with
      | some i =>
          have hresult : o.result I reply = CInt.int.wrap i.val := by
            rcases hreply with rfl | rfl <;> rw [Other.result, status_number, hn] <;> rfl
          unfold Lawful
          rw [hnumber, Option.bind_some, integral_of_toInteger? hn, hresult]
          exact wrap_standsFor_iff i.val
      | none =>
          rcases hreply with rfl | rfl
          · rw [Other.result, status_number, hn]
            simpa using o.judge_number_iff I hnum default hn
          · rw [Other.result, status_number, hn]
            refine iff_of_true ?_ (by simp)
            unfold Lawful
            rw [hnumber, Option.bind_some]
            cases hi : integral n with
            | some i =>
                refine ⟨fun hm => ?_, fun _ => by decide⟩
                exact absurd (hm.widen (by decide)) ((toInteger?_eq_none hi).mp hn)
            | none => cases o <;> rfl
  | none =>
      unfold Lawful
      rw [hnumber]
      cases reply with
      | ok v =>
          have hstatus : status v = none := by
            cases v <;> first | rfl | cases hnumber
          rw [Other.result, hstatus]
          simpa using o.judge_other_iff I hdefault hnumber
      | error e =>
          have hstatus : status e = none := by
            cases e <;> first | rfl | cases hnumber
          rw [Other.result, hstatus]
          refine iff_of_true ?_ (by simp)
          cases o <;> rfl

end DromozoaFuse.Operations
