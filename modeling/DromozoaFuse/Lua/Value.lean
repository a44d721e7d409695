import DromozoaFuse.Base.CInt
import Mathlib.Data.Rat.Defs

/-!
# Lua 5.3 values

Numbers are 64-bit integers or floats, and a float is an exact rational, an infinity or a NaN.
Tables, functions, userdata and threads are references into the heap.
-/

namespace DromozoaFuse.Lua

open Base

abbrev Bytes := List UInt8

def bytes (s : String) : Bytes := s.toByteArray.data.toList

/-- What C takes of a string. -/
def cstring (s : Bytes) : Bytes := s.takeWhile (· ≠ 0)

inductive Double
  | finite (q : ℚ)
  | infinite (negative : Bool)
  | nan
  deriving DecidableEq

inductive Number
  | integer (i : CInt.int64_t.Val)
  | float (x : Double)
  deriving DecidableEq

inductive Value
  | nil
  | boolean (b : Bool)
  | lightuserdata (p : Nat)
  | number (n : Number)
  | string (s : Bytes)
  | table (r : Nat)
  | function (r : Nat)
  | userdata (r : Nat)
  | thread (r : Nat)
  deriving DecidableEq

/-- The type tags, `LUA_TNONE` included. -/
inductive LuaType
  | none
  | nil
  | boolean
  | lightuserdata
  | number
  | string
  | table
  | function
  | userdata
  | thread
  deriving DecidableEq

def Value.type : Value → LuaType
  | .nil => .nil
  | .boolean _ => .boolean
  | .lightuserdata _ => .lightuserdata
  | .number _ => .number
  | .string _ => .string
  | .table _ => .table
  | .function _ => .function
  | .userdata _ => .userdata
  | .thread _ => .thread

def Value.integer (i : CInt.int64_t.Val) : Value := .number (.integer i)

@[simp] theorem Value.type_eq_nil {v : Value} : v.type = .nil ↔ v = .nil := by
  cases v <;> simp [Value.type]

/-! ## Numbers -/

theorem int64_min_mem : CInt.int64_t.Mem CInt.int64_t.min := by decide

/-- The conversion of a `double` to a 64-bit integer by the machine: the fraction is dropped, and
what does not fit gives the smallest integer. -/
def Double.truncate : Double → CInt.int64_t.Val
  | .finite q =>
      let i := q.num.tdiv q.den
      if h : CInt.int64_t.Mem i then ⟨i, h⟩ else ⟨_, int64_min_mem⟩
  | _ => ⟨_, int64_min_mem⟩

def Double.isfinite : Double → Bool
  | .finite _ => true
  | _ => false

/-- The exact integer a number stands for, if it is a Lua integer (`lua_Number2Integer`). -/
def Number.toInteger? : Number → Option CInt.int64_t.Val
  | .integer i => some i
  | .float (.finite q) => if h : q.den = 1 ∧ CInt.int64_t.Mem q.num then some ⟨q.num, h.2⟩ else none
  | .float _ => none

def Number.toDouble : Number → Double
  | .integer i => .finite i.val
  | .float x => x

def Number.rational : Number → Option ℚ
  | .integer i => some i.val
  | .float (.finite q) => some q
  | .float _ => none

theorem Number.rational_of_toInteger? {n : Number} {i} (h : n.toInteger? = some i) :
    n.rational = some (i.val : ℚ) := by
  cases n with
  | integer j =>
      cases h
      rfl
  | float x =>
      cases x with
      | finite q =>
          simp only [toInteger?] at h
          split at h
          · rename_i hq
            cases h
            simp only [rational, Option.some.injEq]
            exact (Rat.den_eq_one_iff q).mp hq.1 |>.symm
          · cases h
      | infinite b => cases h
      | nan => cases h

end DromozoaFuse.Lua
