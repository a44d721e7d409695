import DromozoaFuse.Operations.Lemmas.Stackless

/-!
# Buffers

What the callbacks that fill a buffer write to it, and the status they return.
-/

namespace DromozoaFuse.Operations

open Base Lua DromozoaFuse.Bind DromozoaFuse.Convert Fill

variable {X : Type} (I : Interp (Host X))

def Begins (buffer : Nat → UInt8) (s : Bytes) : Prop := ∀ i b, s[i]? = some b → buffer i = b

theorem memcpy_begins {m n : Nat} (s : Bytes) (h : m ≤ n ∨ s.length ≤ n) (buffer : Nat → UInt8) :
    Begins (memcpy buffer s n) (s.take m) := by
  intro i b hb
  rw [List.getElem?_take] at hb
  split at hb
  · have hi : i < s.length := (List.getElem?_eq_some_iff.mp hb).1
    rw [memcpy, if_pos (by omega), List.getD_eq_getElem?_getD, hb, Option.getD_some]
  · cases hb

theorem memset_memcpy_of_le {size n i : Nat} (h : n ≤ i) (buffer : Nat → UInt8) (s : Bytes) :
    memcpy (memset buffer 0 size) s n i = if i < size then 0 else buffer i := by
  rw [memcpy, if_neg (by omega), memset]

theorem memset_memcpy_outside {size n i : Nat} (hn : n ≤ size) (h : size ≤ i) (buffer : Nat → UInt8) (s : Bytes) :
    memcpy (memset buffer 0 size) s n i = buffer i := by
  rw [memset_memcpy_of_le (Nat.le_trans hn h), if_neg (by omega)]

/-! ## Callbacks that fill a buffer -/

def Other.size? : Other → Option CInt.size_t.Val
  | .readlink size | .read size | .xattr size => some size
  | _ => none

theorem Other.answer_string {o : Other} {size : CInt.size_t.Val} (h : o.size? = some size) (s : Bytes)
    (w : World (Host X) Memory) :
    (o.answer I (.ok (.string s))).exec w =
      (.ok (o.fill s w.mem.buffer).1, { w with mem := { w.mem with buffer := (o.fill s w.mem.buffer).2 } }) := by
  cases o with
  | readlink _ | read _ | xattr _ => rfl
  | nil d | stat | statvfs => cases h

theorem readlink_length {size : CInt.size_t.Val} (h : 1 ≤ size.val) :
    ((CInt.size_t.wrap (size.val - 1)).val.toNat : Int) = size.val - 1 := by
  have hmem : CInt.size_t.Mem (size.val - 1) := by
    have := size.mem
    simp only [CInt.Mem, CInt.min, CInt.max, CInt.card, CInt.unsigned_long] at this ⊢
    omega
  rw [CInt.wrap_of_mem hmem]
  omega

theorem Other.fill_outside {o : Other} {size : CInt.size_t.Val} (h : o.size? = some size)
    (hreadlink : ∀ n, o = .readlink n → 1 ≤ n.val) (s : Bytes) (buffer : Nat → UInt8) {i : Nat}
    (hi : size.val ≤ i) : (o.fill s buffer).2 i = buffer i := by
  have hi' : size.val.toNat ≤ i := by omega
  cases o with
  | readlink n =>
      cases h
      have hn := readlink_length (hreadlink _ rfl)
      exact memset_memcpy_outside (by omega) hi' buffer s
  | read n =>
      cases h
      exact memset_memcpy_outside (Nat.min_le_left _ _) hi' buffer s
  | xattr n =>
      cases h
      simp only [fill]
      split
      · rfl
      · exact memset_memcpy_outside (by omega) hi' buffer s
  | nil d | stat | statvfs => cases h

/-- The first bytes of the buffer are those of the string, and there are as many of them. -/
def Filled (buffer : Nat → UInt8) (s : Bytes) (n : Int) : Prop :=
  n ≤ s.length ∧ Begins buffer (s.take n.toNat)

def Terminated (buffer : Nat → UInt8) (s : Bytes) : Prop := Begins buffer s ∧ buffer s.length = 0

theorem wrap_length_le (s : Bytes) : (CInt.int.wrap s.length).val ≤ s.length := by
  simp only [CInt.wrap, CInt.min, CInt.card, CInt.int]
  norm_num
  omega

theorem readlink_terminated {size : CInt.size_t.Val} (h : 1 ≤ size.val) (s : Bytes) (buffer : Nat → UInt8) :
    Terminated ((Other.readlink size).fill s buffer).2 (s.take (size.val - 1).toNat) := by
  have hn := readlink_length h
  have hlen : (CInt.size_t.wrap (size.val - 1)).val.toNat = (size.val - 1).toNat := by omega
  simp only [Other.fill, hlen, Terminated, List.length_take]
  refine ⟨memcpy_begins s (by omega) _, ?_⟩
  rw [memset_memcpy_of_le (Nat.le_refl _), if_pos (by omega)]

/-- `read` copies what fits, and reports the whole length. -/
theorem read_filled (size : CInt.size_t.Val) (s : Bytes) (buffer : Nat → UInt8)
    (h : (CInt.int.wrap s.length).val ≤ size.val) :
    Filled ((Other.read size).fill s buffer).2 s (CInt.int.wrap s.length).val :=
  ⟨wrap_length_le s, memcpy_begins s (by omega) _⟩

theorem xattr_filled {size : CInt.size_t.Val} {s : Bytes} (h : s.length ≤ size.val.toNat) (buffer : Nat → UInt8) :
    ((Other.xattr size).fill s buffer).1 = CInt.int.wrap s.length ∧
      Filled ((Other.xattr size).fill s buffer).2 s (CInt.int.wrap s.length).val := by
  rw [Other.fill, if_neg (by omega)]
  exact ⟨rfl, wrap_length_le s, memcpy_begins s (Or.inr (Nat.le_refl _)) _⟩

theorem xattr_refused {size : CInt.size_t.Val} {s : Bytes} (h : size.val.toNat < s.length) (buffer : Nat → UInt8) :
    (Other.xattr size).fill s buffer = (ERANGE, buffer) := if_pos h

end DromozoaFuse.Operations
