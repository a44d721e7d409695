import Mathlib.Algebra.Order.Ring.Int
import Mathlib.Tactic.Linarith

/-!
# C integer types

A type is given by its signedness and its width in bits. Its values are integers with a proof that
they are representable, and a conversion to it keeps the value when that is possible and reduces it
modulo `2 ^ width` otherwise, as on two's complement machines.
-/

namespace DromozoaFuse.Base

structure CInt where
  signed : Bool
  width : Nat
  deriving DecidableEq, Repr

namespace CInt

def card (T : CInt) : Int := ((2 ^ T.width : Nat) : Int)

/-- `std::numeric_limits<T>::min()` -/
def min (T : CInt) : Int := if T.signed then -((2 ^ (T.width - 1) : Nat) : Int) else 0

/-- `std::numeric_limits<T>::max()` -/
def max (T : CInt) : Int := T.min + T.card - 1

def Mem (T : CInt) (i : Int) : Prop := T.min ≤ i ∧ i ≤ T.max

instance (T : CInt) (i : Int) : Decidable (T.Mem i) := inferInstanceAs (Decidable (_ ∧ _))

structure Val (T : CInt) where
  val : Int
  mem : T.Mem val
  deriving DecidableEq

theorem card_pos (T : CInt) : 0 < T.card := by
  unfold card
  exact_mod_cast Nat.two_pow_pos T.width

@[ext] theorem Val.ext {T : CInt} {v w : T.Val} (h : v.val = w.val) : v = w := by
  cases v; cases w; cases h; rfl

theorem Val.nonneg {T : CInt} (h : T.signed = false) (v : T.Val) : 0 ≤ v.val := by
  have hmin := v.mem.1
  rw [CInt.min, h] at hmin
  exact hmin

def wrap (T : CInt) (i : Int) : T.Val where
  val := (i - T.min) % T.card + T.min
  mem := by
    have h₀ := Int.emod_nonneg (i - T.min) T.card_pos.ne'
    have h₁ := Int.emod_lt_of_pos (i - T.min) T.card_pos
    constructor
    · omega
    · unfold max; omega

theorem wrap_of_mem {T : CInt} {i : Int} (h : T.Mem i) : (T.wrap i).val = i := by
  obtain ⟨h₀, h₁⟩ := h
  unfold max at h₁
  simp only [wrap]
  rw [Int.emod_eq_of_lt (by omega) (by omega)]
  omega

theorem wrap_val {T : CInt} (v : T.Val) : T.wrap v.val = v := Val.ext (wrap_of_mem v.mem)

theorem wrap_val_iff {T : CInt} {i : Int} : (T.wrap i).val = i ↔ T.Mem i := by
  constructor
  · intro h
    rw [← h]
    exact (T.wrap i).mem
  · exact wrap_of_mem

theorem zero_mem {T : CInt} (h : 0 < T.width) : T.Mem 0 := by
  obtain ⟨s, n⟩ := T
  obtain ⟨m, rfl⟩ : ∃ m, n = m + 1 := ⟨n - 1, (Nat.sub_add_cancel h).symm⟩
  have hpos : 0 < 2 ^ m := Nat.two_pow_pos m
  have hcard : 2 ^ (m + 1) = 2 * 2 ^ m := by rw [Nat.pow_succ, Nat.mul_comm]
  cases s with
  | false =>
      simp only [Mem, CInt.min, CInt.max, card, Bool.false_eq_true, if_false, hcard]
      omega
  | true =>
      simp only [Mem, CInt.min, CInt.max, card, if_true, Nat.add_sub_cancel, hcard]
      omega

theorem Mem.widen {s : Bool} {m n : Nat} (h : m ≤ n) {i : Int} (hi : Mem ⟨s, m⟩ i) : Mem ⟨s, n⟩ i := by
  have hp : 2 ^ m ≤ 2 ^ n := Nat.pow_le_pow_right (by omega) h
  have hp' : 2 ^ (m - 1) ≤ 2 ^ (n - 1) := Nat.pow_le_pow_right (by omega) (by omega)
  have hh : ∀ k, 2 ^ k ≤ 2 * 2 ^ (k - 1) ∧ (0 < k → 2 ^ k = 2 * 2 ^ (k - 1)) := by
    intro k
    cases k with
    | zero => simp
    | succ k => simp [Nat.pow_succ, Nat.mul_comm]
  have hm := (hh m).1
  have hn := hh n
  obtain ⟨h₀, h₁⟩ := hi
  cases s with
  | false =>
      simp only [Mem, CInt.min, CInt.max, card, Bool.false_eq_true, if_false] at h₀ h₁ ⊢
      omega
  | true =>
      simp only [Mem, CInt.min, CInt.max, card, if_true] at h₀ h₁ ⊢
      rcases Nat.eq_zero_or_pos n with h0 | h0
      · obtain rfl : m = n := by omega
        exact ⟨h₀, h₁⟩
      · have := hn.2 h0
        omega

/-! ## The types of the x86-64 Linux ABI -/

def short : CInt := ⟨true, 16⟩
def int : CInt := ⟨true, 32⟩
def long : CInt := ⟨true, 64⟩
def unsigned_int : CInt := ⟨false, 32⟩
def unsigned_long : CInt := ⟨false, 64⟩

abbrev int64_t : CInt := long
abbrev uint64_t : CInt := unsigned_long
abbrev size_t : CInt := unsigned_long
abbrev intmax_t : CInt := long
abbrev off_t : CInt := long
abbrev time_t : CInt := long
abbrev blksize_t : CInt := long
abbrev blkcnt_t : CInt := long
abbrev dev_t : CInt := unsigned_long
abbrev ino_t : CInt := unsigned_long
abbrev nlink_t : CInt := unsigned_long
abbrev mode_t : CInt := unsigned_int
abbrev uid_t : CInt := unsigned_int
abbrev gid_t : CInt := unsigned_int
abbrev pid_t : CInt := int

/-- An unsigned value beyond the signed range comes out negative, which no unsigned type has. -/
theorem mem_int64_wrap {T : CInt} (hT : T.width ≤ 64) (v : T.Val) :
    T.Mem (int64_t.wrap v.val).val ↔ int64_t.Mem v.val := by
  constructor
  · intro h
    obtain ⟨s, n⟩ := T
    have hmem := v.mem
    cases s with
    | true => exact hmem.widen hT
    | false =>
        have hlt := (hmem.widen hT).2
        have h0 := h.1
        have hv0 := hmem.1
        simp only [CInt.min, CInt.max, card, Bool.false_eq_true, if_false] at hlt h0 hv0
        simp only [Mem, wrap, CInt.min, CInt.max, card, int64_t, long, if_true] at h0 ⊢
        norm_num at hlt h0 ⊢
        omega
  · intro h
    rw [wrap_of_mem h]
    exact v.mem

theorem mem_int64_of_lt {T : CInt} (hT : T.width < 64) (v : T.Val) : int64_t.Mem v.val := by
  obtain ⟨s, n⟩ := T
  have hmem := v.mem
  cases s with
  | true => exact hmem.widen (Nat.le_of_lt hT)
  | false =>
      have hn : n ≤ 63 := Nat.le_of_lt_succ hT
      have h0 := hmem.1
      have h1 := (hmem.widen hn).2
      simp only [Mem, CInt.min, CInt.max, card, int64_t, long, Bool.false_eq_true, if_false, if_true]
        at h0 h1 ⊢
      norm_num at h1 ⊢
      omega

theorem mem_int64_of_signed {T : CInt} (hs : T.signed = true) (hT : T.width ≤ 64) (v : T.Val) :
    int64_t.Mem v.val := by
  obtain ⟨s, n⟩ := T
  obtain rfl : s = true := hs
  exact v.mem.widen hT

theorem mem_int64_iff {v : unsigned_long.Val} : int64_t.Mem v.val ↔ v.val < 2 ^ 63 := by
  have h := v.mem
  simp only [Mem, CInt.min, CInt.max, card, int64_t, long, unsigned_long] at h ⊢
  norm_num at h ⊢
  omega

end CInt

end DromozoaFuse.Base
