import Mathlib.Data.Nat.Digits.Lemmas
import Mathlib.Data.List.TakeWhile
import DromozoaFuse.Base.CInt

/-!
# Unsigned integers in streams

The formatted output and input of an unsigned integer by the standard streams in the C locale, on
strings of bytes.
-/

namespace DromozoaFuse.Base

def digit_byte (d : Nat) : UInt8 := UInt8.ofNat (48 + d)

def isdigit (c : UInt8) : Bool := 48 ≤ c.toNat ∧ c.toNat ≤ 57

def isspace (c : UInt8) : Bool := c.toNat = 32 ∨ (9 ≤ c.toNat ∧ c.toNat ≤ 13)

/-- What `ostream << n` writes. -/
def decimal (n : Nat) : List UInt8 :=
  if n = 0 then [digit_byte 0] else (Nat.digits 10 n).reverse.map digit_byte

/-- The number that a string of digits denotes. -/
def digits_value (s : List UInt8) : Nat := s.foldl (fun n c => 10 * n + (c.toNat - 48)) 0

/-- `istream >> n`: the sign and the digits in front, nothing at the end of the stream. Without
digits the result is 0, and what does not fit gives the greatest value; a minus sign negates in the
unsigned type. -/
def extract_unsigned (T : CInt) (s : List UInt8) (old : T.Val) : T.Val :=
  match s.dropWhile isspace with
  | [] => old
  | c :: rest =>
      let digits := (if c = 43 ∨ c = 45 then rest else c :: rest).takeWhile isdigit
      let n : Int := digits_value digits
      if digits = [] then T.wrap 0
      else if T.max < n then T.wrap T.max
      else if c = 45 then T.wrap (-n)
      else T.wrap n

theorem digit_byte_toNat {d : Nat} (h : d < 10) : (digit_byte d).toNat = 48 + d := by
  simp only [digit_byte, UInt8.toNat_ofNat']
  omega

theorem isdigit_digit_byte {d : Nat} (h : d < 10) : isdigit (digit_byte d) = true := by
  simp only [isdigit, digit_byte_toNat h, decide_eq_true_eq]
  omega

theorem decimal_isdigit {n : Nat} {c : UInt8} (h : c ∈ decimal n) : isdigit c = true := by
  unfold decimal at h
  split at h
  · rw [List.mem_singleton] at h
    exact h ▸ isdigit_digit_byte (by omega)
  · obtain ⟨d, hd, rfl⟩ := List.mem_map.mp h
    exact isdigit_digit_byte (Nat.digits_lt_base (by omega) (List.mem_reverse.mp hd))

theorem decimal_ne_nil (n : Nat) : decimal n ≠ [] := by
  unfold decimal
  split
  · simp
  · rename_i hn
    simpa using Nat.digits_ne_nil_iff_ne_zero.mpr hn

theorem digits_value_map {ds : List Nat} (h : ∀ d ∈ ds, d < 10) (n : Nat) :
    (ds.map digit_byte).foldl (fun n c => 10 * n + (c.toNat - 48)) n =
      ds.foldl (fun n d => 10 * n + d) n := by
  induction ds generalizing n with
  | nil => rfl
  | cons d ds ih =>
      simp only [List.map_cons, List.foldl_cons]
      rw [digit_byte_toNat (h d (by simp)), Nat.add_sub_cancel_left]
      exact ih (fun e he => h e (List.mem_cons_of_mem _ he)) _

theorem digits_value_decimal (n : Nat) : digits_value (decimal n) = n := by
  unfold decimal digits_value
  split
  · rename_i hn
    simp [hn, digit_byte_toNat]
  · have hlt : ∀ d ∈ (Nat.digits 10 n).reverse, d < 10 := fun d hd =>
      Nat.digits_lt_base (by omega) (List.mem_reverse.mp hd)
    rw [digits_value_map hlt, List.foldl_reverse]
    conv_rhs => rw [← Nat.ofDigits_digits 10 n, Nat.ofDigits_eq_foldr]
    congr 1
    funext d m
    simp only [Nat.cast_id]
    omega

theorem extract_decimal {T : CInt} {n : Nat} (h : T.Mem n) (old : T.Val) :
    extract_unsigned T (decimal n) old = ⟨n, h⟩ := by
  obtain ⟨c, rest, hc⟩ : ∃ c rest, decimal n = c :: rest := List.exists_cons_of_ne_nil (decimal_ne_nil n)
  have hdigit : isdigit c = true := decimal_isdigit (n := n) (by simp [hc])
  have hall : (decimal n).takeWhile isdigit = decimal n :=
    List.takeWhile_eq_self_iff.mpr fun d hd => decimal_isdigit hd
  have hrange : 48 ≤ c.toNat ∧ c.toNat ≤ 57 := by simpa [isdigit] using hdigit
  have hspace : isspace c = false := by
    simp only [isspace, decide_eq_false_iff_not]
    omega
  have hplus : c ≠ 43 := by rintro rfl; simp at hrange
  have hminus : c ≠ 45 := by rintro rfl; simp at hrange
  have hvalue : (digits_value (decimal n) : Int) = n := by rw [digits_value_decimal]
  rw [hc] at hall hvalue
  simp only [extract_unsigned, hc, List.dropWhile_cons, hspace, hplus, hminus, or_self, if_false, hall,
    hvalue, reduceCtorEq, Bool.false_eq_true, not_lt.mpr h.2]
  exact CInt.Val.ext (CInt.wrap_of_mem h)

example : extract_unsigned CInt.unsigned_long (decimal 120) (CInt.unsigned_long.wrap 7) =
    CInt.unsigned_long.wrap 120 := by decide

end DromozoaFuse.Base
