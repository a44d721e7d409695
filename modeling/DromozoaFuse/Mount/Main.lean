import DromozoaFuse.Convert.Records
import DromozoaFuse.Operations.Lemmas.Dispatch

/-!
# `fuse.main`

What a script starts a file system with: the arguments of `fuse_main` in a table, a `state_manager_main` and a table of
flags. The state of the manager shares its heap with the caller, and on its stack is the operations value.
-/

namespace DromozoaFuse.Mount

open Base Lua DromozoaFuse.Bind DromozoaFuse.Convert Fill Operations

/-- A call of `fuse_main`: `argv` without the null pointer at its end, the callbacks and the flags. -/
structure Call where
  argv : List Bytes
  slots : Slots
  flags : Struct fuse_operations

/-- The struct of the operations, and the calls of `fuse_main` so far. -/
structure Mounting where
  ops : Struct fuse_operations
  called : List Call

def ops_ptr : Ptr Mounting (Struct fuse_operations) :=
  ⟨Mounting.ops, fun m a => { m with ops := a }, fun _ _ => rfl, fun _ _ _ => rfl, fun _ => rfl⟩

variable {X : Type} (I : Interp (Host X))

/-- `luaX_get_field(L, index, key)` with an `int` for a key. -/
def luaX_get_index (index : Int) (key : CInt.int.Val) : LuaM (Host X) Mounting LuaType := do
  let index ← lua_absindex index
  luaX_push (.int key)
  lua_gettable I index

/-- The operations value of the state of a `state_manager_main`, by its userdata. -/
abbrev Managers : Type := Nat → Option Value

def check_state_manager (managers : Managers) (arg : Nat) : LuaM (Host X) Mounting Value := do
  match (slot (← get) arg).bind fun v => match v with
    | .userdata r => managers r
    | _ => none with
  | some ops => return ops
  | none => typeerror I arg "dromozoa.fuse.state_manager"

/-- The loop over the first argument from `i` on, or nothing where `i` overflows: an `int` has `n` numbers left. -/
def arguments : (n : Nat) → (i : CInt.int.Val) → List Bytes → LuaM (Host X) Mounting (Option (List Bytes))
  | 0, _, _ => return none
  | n + 1, i, args => do
      let _ ← luaX_get_index I 1 i
      match ← lua_tolstring I (-1) with
      | some p =>
          lua_pop 1
          arguments n (CInt.int.wrap (i.val + 1)) (args ++ [cstring p])
      | none =>
          lua_pop 1
          return some args

/-- `new operations(manager)`: the constructor runs on the state of the manager. -/
def new_operations (ops : Value) : HostM (Host X) Mounting Slots :=
  .lift fun w =>
    let (out, w') := ((operations I).run [ops]).exec ⟨w.heap, .zeroed, []⟩
    (out.map Prod.fst, ⟨w'.heap, { w.mem with ops := zero }, w.trace ++ w'.trace⟩)

/-- What libfuse does until the file system is unmounted. -/
abbrev FuseMain (X : Type) : Type := Call → Heap (Host X) → CInt.int.Val × Heap (Host X)

def fuse_main (libfuse : FuseMain X) (c : Call) : HostM (Host X) Mounting CInt.int.Val :=
  .lift fun w =>
    let (result, heap) := libfuse c w.heap
    (.ok result, { w with heap, mem := { w.mem with called := w.mem.called ++ [c] } })

def int_max : Nat := 2 ^ 31 - 1

/-- `impl_main`, or nothing where the index of the loop overflows. -/
def impl_main (managers : Managers) (libfuse : FuseMain X) : LuaM (Host X) Mounting (Option Unit) := do
  if (← lua_type 1) ≠ .table then typeerror I 1 "table"
  let manager ← check_state_manager I managers 2
  match ← arguments I int_max (CInt.int.wrap 1) [] with
  | none => return none
  | some argv =>
      let slots ← onHost (new_operations I manager)
      let _ ← convert I .operations ops_ptr 3
      let flags ← onHost (read ops_ptr)
      let result ← onHost (fuse_main libfuse ⟨argv, slots, flags⟩)
      luaX_push (.int result)
      return some ()

end DromozoaFuse.Mount
