import DromozoaFuse.Convert.Convert

/-!
# `fill_dir`

The directory filler that `readdir` passes to a script is a userdata. `reset` takes its function and
its buffer away, and the script may keep it after that.
-/

namespace DromozoaFuse.Fill

open Base Lua DromozoaFuse.Bind DromozoaFuse.Convert

/-- One call of a `fuse_fill_dir_t`. -/
structure Entry where
  function : Nat
  buffer : Nat
  name : Bytes
  stat : Option (Struct Convert.stat)
  offset : CInt.off_t.Val
  result : CInt.int.Val

/-- A `fill_dir` with its pointers, which are not null before `reset`, and whether the userdata has got the
metatable. -/
structure FillDir where
  function_ : Option Nat
  buffer_ : Option Nat
  metatable : Bool
  deriving DecidableEq

/-- What a state keeps besides tables: the fillers by reference, whether the metatable
`dromozoa.fuse.fill_dir` is in the registry, the calls of `fuse_fill_dir_t` so far, oldest first, and
whatever else the scripts keep. -/
structure Host (X : Type) where
  fill_dirs : Nat → Option FillDir
  registered : Bool
  filled : List Entry
  scripts : X

/-- What a `fuse_fill_dir_t` returns, after the calls made so far. -/
abbrev Filler : Type :=
  List Entry → (function buffer : Nat) → Bytes → Option (Struct Convert.stat) → CInt.off_t.Val → CInt.int.Val

variable {X M : Type} (I : Interp (Host X)) (filler : Filler)

def modifyHost (f : Host X → Host X) : HostM (Host X) M Unit :=
  modify fun w => { w with heap := { w.heap with host := f w.heap.host } }

def Host.set (host : Host X) (r : Nat) (d : FillDir) : Host X :=
  { host with fill_dirs := Function.update host.fill_dirs r (some d) }

/-- `new_fill_dir` pushes the userdata. A missing metatable is not noticed. -/
def new_fill_dir (function buffer : Nat) : LuaM (Host X) M Nat := do
  let r ← onHost newref
  let w ← onHost get
  onHost (modifyHost (·.set r ⟨some function, some buffer, w.heap.host.registered⟩))
  lua_push (.userdata r)
  return r

def FillDir.reset (self : FillDir) : FillDir := { self with function_ := none, buffer_ := none }

/-- What `~scoped_handle` does. -/
def reset (r : Nat) : HostM (Host X) M Unit := do
  let w ← get
  match w.heap.host.fill_dirs r with
  | some d => modifyHost (·.set r d.reset)
  | none => pure ()

/-- `fill_dir::operator()`, or what it throws. -/
def call (r : Nat) (name : Bytes) (stat : Option (Struct Convert.stat)) (offset : CInt.off_t.Val) :
    HostM (Host X) M (Except String CInt.int.Val) := do
  let w ← get
  match w.heap.host.fill_dirs r with
  | some ⟨some function, some buffer, _⟩ =>
      let result := filler w.heap.host.filled function buffer name stat offset
      modifyHost fun host =>
        { host with filled := host.filled ++ [⟨function, buffer, name, stat, offset, result⟩] }
      return .ok result
  | _ => return .error "out of scope"

/-- The filler with the metatable that a value refers to. -/
def Host.fill_dir? (host : Host X) : Option Value → Option Nat
  | some (.userdata r) => if (host.fill_dirs r).any (·.metatable) then some r else none
  | _ => none

/-- `luaX_check_udata<fill_dir>(L, arg, "dromozoa.fuse.fill_dir")` -/
def check_fill_dir (arg : Nat) : LuaM (Host X) M Nat := do
  let w ← onHost get
  match w.heap.host.fill_dir? (slot (← get) arg) with
  | some self => return self
  | none => typeerror I arg "dromozoa.fuse.fill_dir"

/-- `luaX_opt_integer<T>(L, arg, d)` -/
def luaX_opt_integer (T : CInt) (arg : Nat) (d : T.Val) : LuaM (Host X) M T.Val := do
  let source ← luaL_optinteger I arg (CInt.int64_t.wrap d.val)
  match luaX_integer_traits_convert T source T.min T.max with
  | some target => return target
  | none => luaL_argerror I arg (bytes "out of bounds")

/-- `impl_call`; its memory is the local `struct stat buffer`. A `luaX_failure` is a result, which
`closure` looks at. -/
def impl_call : LuaM (Host X) (Struct Convert.stat) (Except String Unit) := do
  let self ← check_fill_dir I 1
  let name ← luaL_checklstring I 2
  let converted ← convert I .stat .whole 3
  let buffer ← onHost (read .whole)
  let offset ← luaX_opt_integer I CInt.off_t 4 (CInt.off_t.wrap 0)
  match ← onHost (call filler self (cstring name) (if converted then some buffer else none) offset) with
  | .ok result => luaX_push (.int result); return .ok ()
  | .error what => return .error what

/-- `closure`: the number of results of a C function. -/
def closure {H : Type} (function : LuaM H M (Except String Unit)) : LuaM H M Nat := do
  let top ← lua_gettop
  match ← function with
  | .ok () => return ((← lua_gettop) - top).toNat
  | .error what =>
      lua_settop top
      luaX_push .nil
      luaX_push (.cstr (bytes what))
      return 2

/-- A script calls a filler with some arguments: the results, or the error it raises. -/
def fill (object : Value) (args : List Value) (heap : Heap (Host X)) :
    Except Value (List Value) × Heap (Host X) :=
  match heap.host.fill_dir? (some object) with
  | some _ =>
      let (out, w) := ((closure (impl_call I filler)).run (args.reverse ++ [object])).exec ⟨heap, zero, []⟩
      (out.map fun (nresults, stk) => (stk.take nresults).reverse, w.heap)
  | none =>
      (.error (.string (I.position heap ++ bytes "attempt to call a " ++
        I.typename heap (some object) ++ bytes " value")), heap)

end DromozoaFuse.Fill
