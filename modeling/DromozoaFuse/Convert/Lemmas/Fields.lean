import DromozoaFuse.Convert.Lemmas.Targets
import Mathlib.Data.Rat.Lemmas

/-!
# Numbers in fields

When a number arrives in a member as it is: it has to be an integer of Lua, within the bounds of the
declared type, and it has to fit what is stored.
-/

namespace DromozoaFuse.Convert

open Base Lua DromozoaFuse.Bind

variable {H M : Type} (I : Interp H) {S : Layout}

theorem field_integer_of_source {T : CInt} {d : T.Val} {v : Value} {source : CInt.intmax_t.Val}
    (h : field_source I d v = some source) :
    field_integer I T d T.min T.max v =
      if hm : T.Mem source.val then .ok ⟨source.val, hm⟩ else .error "out of bounds" := by
  have hmin : T.signed = false → 0 ≤ T.min := by
    intro hs
    simp [CInt.min, hs]
  simp only [field_integer, h, luaX_integer_traits_convert_eq hmin]
  by_cases hm : T.Mem source.val
  · rw [if_pos (show T.min ≤ source.val ∧ source.val ≤ T.max from hm), dif_pos hm]
    exact congrArg Except.ok (CInt.Val.ext (CInt.wrap_of_mem hm))
  · rw [if_neg (show ¬ (T.min ≤ source.val ∧ source.val ≤ T.max) from hm), dif_neg hm]

theorem field_source_integer {T : CInt} (d : T.Val) (i : CInt.int64_t.Val) :
    field_source I d (.integer i) = some i := by
  simp [field_source, Value.integer, Interp.tointeger, Number.toInteger?]

theorem field_source_nil {T : CInt} (d : T.Val) :
    field_source I d .nil = some (CInt.intmax_t.wrap d.val) := by
  simp [field_source]

theorem field_integer_of_number {T : CInt} {d : T.Val} {v : Value} {i : T.Val}
    (hn : (I.tonumber v).isSome) (hi : field_integer I T d T.min T.max v = .ok i) :
    i.val = (I.tointeger v).val := by
  have hsource : field_source I d v = some (I.tointeger v) := by simp [field_source, hn]
  rw [field_integer_of_source I hsource] at hi
  split at hi
  · cases hi
    rfl
  · cases hi

theorem Number.toInteger?_of_rational {n : Number} {m : Int} (h : n.rational = some (m : ℚ))
    (hm : CInt.int64_t.Mem m) : n.toInteger? = some ⟨m, hm⟩ := by
  cases n with
  | integer i =>
      simp only [Number.rational, Option.some.injEq, Rat.intCast_inj] at h
      simp only [Number.toInteger?, Option.some.injEq]
      exact CInt.Val.ext h
  | float x =>
      cases x with
      | finite q =>
          simp only [Number.rational, Option.some.injEq] at h
          subst h
          simp [Number.toInteger?, hm]
      | infinite b => cases h
      | nan => cases h

/-- A number that was accepted for a member arrives there exactly if it is an integer of Lua that the
member can hold. -/
theorem exact_iff {k : S.Member} {d : (S.type k).Val} {v : Value} {n : Number} {i : (S.type k).Val}
    (hn : I.tonumber v = some n)
    (hi : field_integer I (S.type k) d (S.type k).min (S.type k).max v = .ok i) :
    n.rational = some ((((S.store k).wrap i.val).val : Int) : ℚ) ↔
      ∃ j, n.toInteger? = some j ∧ (S.store k).Mem j.val := by
  have hval := field_integer_of_number I (by rw [hn]; rfl) hi
  have hto : I.tointeger v = n.toInteger?.getD (CInt.int64_t.wrap 0) := by
    simp [Interp.tointeger, hn]
  constructor
  · intro h
    cases hj : n.toInteger? with
    | some j =>
        refine ⟨j, rfl, ?_⟩
        have hr := Number.rational_of_toInteger? hj
        rw [h, Option.some.injEq, Rat.intCast_inj] at hr
        exact hr ▸ ((S.store k).wrap i.val).mem
    | none =>
        -- what has no integer is taken for 0
        have h0 : i.val = 0 := by
          rw [hval, hto, hj]
          rfl
        have hzero : ((S.store k).wrap i.val).val = 0 := by
          rw [h0]
          exact CInt.wrap_of_mem (CInt.zero_mem (S.bits_pos k))
        rw [hzero] at h
        have := Number.toInteger?_of_rational h (by decide)
        rw [hj] at this
        cases this
  · rintro ⟨j, hj, hm⟩
    have hij : i.val = j.val := by rw [hval, hto, hj]; rfl
    rw [Number.rational_of_toInteger? hj, hij, CInt.wrap_of_mem hm]

end DromozoaFuse.Convert
