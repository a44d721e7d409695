import DromozoaFuse.FillDir.FillDir

/-!
# The callbacks of `operations.cpp`

Every callback opens a managed state, saves the top of its stack, makes tables of the structs it was
given, calls the handler, and on its way out converts the tables back, restores the top and closes
the state. `callback` is this scheme, and a `Callback` has what differs. A destructor runs when the
scope it belongs to is left by a return. An error of Lua leaves no scope: nothing after it runs.
-/

namespace DromozoaFuse.Operations

open Base Lua DromozoaFuse.Bind DromozoaFuse.Convert Fill

/-- What the pointers among the arguments of a callback point to, and the texts reported by
`DROMOZOA_UNEXPECTED`. -/
structure Memory where
  conn_info : Struct fuse_conn_info
  file_info : Struct fuse_file_info
  flock : Struct Convert.flock
  stat : Struct Convert.stat
  statvfs : Struct Convert.statvfs
  buffer : Nat → UInt8
  unexpected : List (Option Bytes)

def Memory.zeroed : Memory := ⟨zero, zero, zero, zero, zero, fun _ => 0, []⟩

def conn_info_ptr : Ptr Memory (Struct fuse_conn_info) :=
  ⟨Memory.conn_info, fun m a => { m with conn_info := a }, fun _ _ => rfl, fun _ _ _ => rfl, fun _ => rfl⟩

def file_info_ptr : Ptr Memory (Struct fuse_file_info) :=
  ⟨Memory.file_info, fun m a => { m with file_info := a }, fun _ _ => rfl, fun _ _ _ => rfl, fun _ => rfl⟩

def flock_ptr : Ptr Memory (Struct Convert.flock) :=
  ⟨Memory.flock, fun m a => { m with flock := a }, fun _ _ => rfl, fun _ _ _ => rfl, fun _ => rfl⟩

def stat_ptr : Ptr Memory (Struct Convert.stat) :=
  ⟨Memory.stat, fun m a => { m with stat := a }, fun _ _ => rfl, fun _ _ _ => rfl, fun _ => rfl⟩

def statvfs_ptr : Ptr Memory (Struct Convert.statvfs) :=
  ⟨Memory.statvfs, fun m a => { m with statvfs := a }, fun _ _ => rfl, fun _ _ _ => rfl, fun _ => rfl⟩

variable {X : Type} (I : Interp (Host X))

/-- Programs of the C API in a callback. -/
abbrev OpM (X α : Type) : Type := LuaM (Host X) Memory α

/-! ## Converters -/

/-- The types `T` of `scoped_converter<T>`. -/
inductive Converter
  | conn_info
  | file_info
  | flock
  deriving DecidableEq, Repr

@[reducible] def Converter.target : Converter → Target
  | .conn_info => .conn_info
  | .file_info => .file_info
  | .flock => .flock

def Converter.ptr : (c : Converter) → Ptr Memory (Struct c.target.layout)
  | .conn_info => conn_info_ptr
  | .file_info => file_info_ptr
  | .flock => flock_ptr

def Converter.to_table : (c : Converter) → Struct c.target.layout → OpM X Int
  | .conn_info => convert_conn_info I
  | .file_info => convert_file_info I
  | .flock => convert_flock I

/-- A `scoped_converter` around `body`, which gets `index()`. -/
def scoped_converter {α : Type} (c : Converter) (body : Int → OpM X α) : OpM X α := do
  let index ← c.to_table I (← onHost (read c.ptr))
  onHost (record (.constructed index (slot (← get) index)))
  let a ← body index
  onHost (record (.destructed index (slot (← get) index)))
  let _ ← convert I c.target c.ptr index
  return a

abbrev Indices : Type := List (Converter × Int)

/-- Converters around `body`, the first one outermost. -/
def with_converters {α : Type} : List Converter → (Indices → OpM X α) → OpM X α
  | [], body => body []
  | c :: cs, body =>
      scoped_converter I c fun index => with_converters cs fun indices => body ((c, index) :: indices)

def Indices.index (indices : Indices) (c : Converter) : Int := (indices.lookup c).getD 0

/-! ## `prepare`, `check` and `call` -/

def prepare (index : Int) (name : String) : OpM X Bool := do
  if (← luaX_get_field I index (bytes name)) ≠ .nil then
    lua_pushvalue index
    return true
  else return false

def check (name : String) : OpM X Bool := do
  let result := (← luaX_get_field I (-1) (bytes name)) ≠ .nil
  lua_pop 1
  return result

/-- `DROMOZOA_UNEXPECTED(what)` -/
def UNEXPECTED (what : Option Bytes) : HostM (Host X) Memory Unit :=
  modifyMem fun m => { m with unexpected := m.unexpected ++ [what.map cstring] }

def ENOSYS : CInt.int.Val := CInt.int.wrap (-38)

def ERANGE : CInt.int.Val := CInt.int.wrap (-34)

/-- The protected call of a handler. An integer is the status, raised or returned. What a handler
returns besides is left to `other`, which tells nothing where the handler must return `what`. -/
def reply (nargs : Nat) (what : String) (other : OpM X (Option CInt.int.Val)) : OpM X CInt.int.Val := do
  if (← lua_pcall I nargs 1) = 0 then
    if ← luaX_is_integer I (-1) then
      return CInt.int.wrap (← lua_tointeger I (-1)).val
    match ← other with
    | some status => return status
    | none => onHost (UNEXPECTED (some (bytes what)))
  else
    if ← luaX_is_integer I (-1) then
      return CInt.int.wrap (← lua_tointeger I (-1)).val
    onHost (UNEXPECTED (← lua_tolstring I (-1)))
  return ENOSYS

/-! ## Buffers -/

def memset (buffer : Nat → UInt8) (c : UInt8) (n : Nat) : Nat → UInt8 :=
  fun i => if i < n then c else buffer i

def memcpy (buffer : Nat → UInt8) (data : Bytes) (n : Nat) : Nat → UInt8 :=
  fun i => if i < n then data.getD i 0 else buffer i

/-- The string of `luaX_string_reference(buffer, size)`. -/
def string_reference (buffer : Nat → UInt8) (size : CInt.size_t.Val) : Bytes :=
  (List.range size.val.toNat).map buffer

/-- What is done with a result that is no integer: `call` has a status for nil, some callbacks convert
a table, and three kinds of callbacks fill a buffer from a string. -/
inductive Other
  | nil (d : CInt.int.Val)
  | stat
  | statvfs
  | readlink (size : CInt.size_t.Val)
  | read (size : CInt.size_t.Val)
  | xattr (size : CInt.size_t.Val)

def Other.what : Other → String
  | .nil _ => "must return an integer"
  | .stat | .statvfs => "must return a table"
  | .readlink _ | .read _ | .xattr _ => "must return a string"

/-- The status of a callback that fills a buffer of `size` bytes from a string, and the buffer. -/
def Other.fill : Other → Bytes → (Nat → UInt8) → CInt.int.Val × (Nat → UInt8)
  | .readlink size, s, buffer =>
      let n := min (CInt.size_t.wrap (size.val - 1)).val.toNat s.length
      (CInt.int.wrap 0, memcpy (memset buffer 0 size.val.toNat) s n)
  | .read size, s, buffer =>
      let n := min size.val.toNat s.length
      (CInt.int.wrap s.length, memcpy (memset buffer 0 size.val.toNat) s n)
  | .xattr size, s, buffer =>
      if s.length > size.val.toNat then (ERANGE, buffer)
      else (CInt.int.wrap s.length, memcpy (memset buffer 0 size.val.toNat) s s.length)
  | _, _, buffer => (CInt.int.wrap 0, buffer)

def Other.run (o : Other) : OpM X (Option CInt.int.Val) := do
  match o with
  | .nil d => return if ← lua_isnil (-1) then some d else none
  | .stat => return if ← convert I .stat stat_ptr (-1) then some (CInt.int.wrap 0) else none
  | .statvfs => return if ← convert I .statvfs statvfs_ptr (-1) then some (CInt.int.wrap 0) else none
  | o =>
      match ← luaX_to_string I (-1) with
      | some s =>
          let m ← onHost get
          let (status, buffer) := o.fill s m.mem.buffer
          onHost (modifyMem fun m => { m with buffer })
          return some status
      | none => return none

/-! ## The scheme of a callback -/

inductive Arg
  | push (d : Datum)
  | pushvalue (c : Converter)
  | fill_dir (function buffer : Nat)
  | timespec (t : Struct Convert.timespec)

/-- Push the arguments; the handles that are in scope then, the last one first. -/
def push_args (indices : Indices) : List Arg → List Nat → OpM X (List Nat)
  | [], handles => return handles
  | .push d :: args, handles => do
      luaX_push d
      push_args indices args handles
  | .pushvalue c :: args, handles => do
      lua_pushvalue (indices.index c)
      push_args indices args handles
  | .fill_dir function buffer :: args, handles => do
      let handle ← new_fill_dir function buffer
      push_args indices args (handle :: handles)
  | .timespec t :: args, handles => do
      let _ ← convert_timespec I t
      push_args indices args handles

/-- What a callback returns: a status, `self` in `init`, nothing in `destroy`. -/
inductive Returned
  | int (status : CInt.int.Val)
  | self
  | void
  deriving DecidableEq

/-- How a callback goes on when the arguments are on the stack. -/
inductive Finish
  | reply (o : Other)
  | init
  | destroy

/-- A protected call whose results are not asked for. -/
def notify (nargs : Nat) : OpM X Unit := do
  if (← lua_pcall I nargs 0) ≠ 0 then
    onHost (UNEXPECTED (← lua_tolstring I (-1)))

def Finish.run (nargs : Nat) : Finish → OpM X Returned
  | .reply o => do return .int (← Operations.reply I nargs o.what (o.run I))
  | .init => do notify I nargs; return .self
  | .destroy => do notify I nargs; return .void

def Finish.missing : Finish → Returned
  | .reply _ => .int ENOSYS
  | .init => .self
  | .destroy => .void

/-- A callback: the name it looks up, the converters it declares, what it pushes, the number of
arguments in its protected call, and how it goes on. -/
structure Callback where
  name : String
  converters : List Converter
  args : List Arg
  nargs : Nat
  finish : Finish

def Callback.body (c : Callback) (save : Int) (indices : Indices) : OpM X Returned := do
  if ← prepare I save c.name then
    let handles ← push_args I indices c.args []
    let returned ← c.finish.run I c.nargs
    handles.forM fun handle => onHost (reset handle)
    return returned
  else return c.finish.missing

def Callback.run (c : Callback) : OpM X Returned := do
  let save ← lua_gettop
  let returned ← with_converters I c.converters (c.body I save)
  lua_settop save
  return returned

/-- A `managed_state` around `body`, which runs on the state that was opened. -/
def managed_state {α : Type} (body : OpM X α) : OpM X α := do
  onHost (record (.opened (← get)))
  let a ← body
  onHost (record (.closed (← get)))
  return a

def callback (c : Callback) : OpM X Returned := managed_state (c.run I)

end DromozoaFuse.Operations
