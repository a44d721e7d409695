import DromozoaFuse.Operations.Operations

/-!
# The callbacks, and which of them are installed

The Linux build, where `getxattr` and `setxattr` have no `position`. The arguments of a callback that
point to a struct, and the buffers that are filled, are in the memory.
-/

namespace DromozoaFuse.Operations

open Base Lua DromozoaFuse.Bind DromozoaFuse.Convert Fill

/-- A `const char*` that may be null. -/
abbrev Path : Type := Option Bytes

def Finish.call : Finish := .reply (.nil (CInt.int.wrap 0))

def Callback.getattr (path : Path) : Callback :=
  ⟨"getattr", [], [.push (.cstr path)], 2, .reply .stat⟩

def Callback.readlink (path : Path) (size : CInt.size_t.Val) : Callback :=
  ⟨"readlink", [], [.push (.cstr path), .push (.int size)], 3, .reply (.readlink size)⟩

def Callback.mknod (path : Path) (mode : CInt.mode_t.Val) (dev : CInt.dev_t.Val) : Callback :=
  ⟨"mknod", [], [.push (.cstr path), .push (.int mode), .push (.int dev)], 4, .call⟩

def Callback.mkdir (path : Path) (mode : CInt.mode_t.Val) : Callback :=
  ⟨"mkdir", [], [.push (.cstr path), .push (.int mode)], 3, .call⟩

def Callback.unlink (path : Path) : Callback :=
  ⟨"unlink", [], [.push (.cstr path)], 2, .call⟩

def Callback.rmdir (path : Path) : Callback :=
  ⟨"rmdir", [], [.push (.cstr path)], 2, .call⟩

def Callback.symlink (target path : Path) : Callback :=
  ⟨"symlink", [], [.push (.cstr target), .push (.cstr path)], 3, .call⟩

def Callback.rename (oldpath newpath : Path) : Callback :=
  ⟨"rename", [], [.push (.cstr oldpath), .push (.cstr newpath)], 3, .call⟩

def Callback.link (oldpath newpath : Path) : Callback :=
  ⟨"link", [], [.push (.cstr oldpath), .push (.cstr newpath)], 3, .call⟩

def Callback.chmod (path : Path) (mode : CInt.mode_t.Val) : Callback :=
  ⟨"chmod", [], [.push (.cstr path), .push (.int mode)], 3, .call⟩

def Callback.chown (path : Path) (uid : CInt.uid_t.Val) (gid : CInt.gid_t.Val) : Callback :=
  ⟨"chown", [], [.push (.cstr path), .push (.int uid), .push (.int gid)], 4, .call⟩

def Callback.truncate (path : Path) (size : CInt.off_t.Val) : Callback :=
  ⟨"truncate", [], [.push (.cstr path), .push (.int size)], 3, .call⟩

def Callback.open (path : Path) : Callback :=
  ⟨"open", [.file_info], [.push (.cstr path), .pushvalue .file_info], 3, .call⟩

def Callback.read (path : Path) (size : CInt.size_t.Val) (offset : CInt.off_t.Val) : Callback :=
  ⟨"read", [.file_info],
    [.push (.cstr path), .push (.int size), .push (.int offset), .pushvalue .file_info], 5,
    .reply (.read size)⟩

def Callback.write (path : Path) (buffer : Nat → UInt8) (size : CInt.size_t.Val) (offset : CInt.off_t.Val) :
    Callback :=
  ⟨"write", [.file_info],
    [.push (.cstr path), .push (.str (string_reference buffer size)), .push (.int offset), .pushvalue .file_info],
    5, .reply (.nil (CInt.int.wrap size.val))⟩

def Callback.statfs (path : Path) : Callback :=
  ⟨"statfs", [], [.push (.cstr path)], 2, .reply .statvfs⟩

def Callback.flush (path : Path) : Callback :=
  ⟨"flush", [.file_info], [.push (.cstr path), .pushvalue .file_info], 3, .call⟩

def Callback.release (path : Path) : Callback :=
  ⟨"release", [.file_info], [.push (.cstr path), .pushvalue .file_info], 3, .call⟩

def Callback.fsync (path : Path) (datasync : CInt.int.Val) : Callback :=
  ⟨"fsync", [.file_info], [.push (.cstr path), .push (.int datasync), .pushvalue .file_info], 4, .call⟩

def Callback.setxattr (path name : Path) (buffer : Nat → UInt8) (size : CInt.size_t.Val)
    (flags : CInt.int.Val) : Callback :=
  ⟨"setxattr", [],
    [.push (.cstr path), .push (.cstr name), .push (.str (string_reference buffer size)), .push (.int flags),
      .push .nil], 6, .call⟩

def Callback.getxattr (path name : Path) (size : CInt.size_t.Val) : Callback :=
  ⟨"getxattr", [],
    [.push (.cstr path), .push (.cstr name), .push (.int size), .push .nil], 5, .reply (.xattr size)⟩

def Callback.listxattr (path : Path) (size : CInt.size_t.Val) : Callback :=
  ⟨"listxattr", [], [.push (.cstr path), .push (.int size)], 3, .reply (.xattr size)⟩

def Callback.removexattr (path name : Path) : Callback :=
  ⟨"removexattr", [], [.push (.cstr path), .push (.cstr name)], 3, .call⟩

def Callback.opendir (path : Path) : Callback :=
  ⟨"opendir", [.file_info], [.push (.cstr path), .pushvalue .file_info], 3, .call⟩

def Callback.readdir (path : Path) (buffer function : Nat) (offset : CInt.off_t.Val) : Callback :=
  ⟨"readdir", [.file_info],
    [.push (.cstr path), .fill_dir function buffer, .push (.int offset), .pushvalue .file_info], 5,
    .call⟩

def Callback.releasedir (path : Path) : Callback :=
  ⟨"releasedir", [.file_info], [.push (.cstr path), .pushvalue .file_info], 3, .call⟩

def Callback.fsyncdir (path : Path) (datasync : CInt.int.Val) : Callback :=
  ⟨"fsyncdir", [.file_info],
    [.push (.cstr path), .push (.int datasync), .pushvalue .file_info], 4, .call⟩

def Callback.init : Callback :=
  ⟨"init", [.conn_info], [.pushvalue .conn_info], 2, .init⟩

def Callback.destroy : Callback :=
  ⟨"destroy", [], [], 1, .destroy⟩

def Callback.access (path : Path) (mode : CInt.int.Val) : Callback :=
  ⟨"access", [], [.push (.cstr path), .push (.int mode)], 3, .call⟩

def Callback.create (path : Path) (mode : CInt.mode_t.Val) : Callback :=
  ⟨"create", [.file_info], [.push (.cstr path), .push (.int mode), .pushvalue .file_info], 4, .call⟩

def Callback.ftruncate (path : Path) (size : CInt.off_t.Val) : Callback :=
  ⟨"ftruncate", [.file_info], [.push (.cstr path), .push (.int size), .pushvalue .file_info], 4, .call⟩

def Callback.fgetattr (path : Path) : Callback :=
  ⟨"fgetattr", [.file_info], [.push (.cstr path), .pushvalue .file_info], 3, .reply .stat⟩

def Callback.lock (path : Path) (command : CInt.int.Val) : Callback :=
  ⟨"lock", [.file_info, .flock],
    [.push (.cstr path), .pushvalue .file_info, .push (.int command), .pushvalue .flock], 5, .call⟩

def Callback.utimens (path : Path) (times : Option (Struct timespec × Struct timespec)) : Callback :=
  let args :=
    match times with
    | some (atime, mtime) => [Arg.timespec atime, .timespec mtime]
    | none => [.push .nil, .push .nil]
  ⟨"utimens", [], .push (.cstr path) :: args, 4, .call⟩

/-- The source looks up `lock` here. -/
def Callback.flock (path : Path) (operation : CInt.int.Val) : Callback :=
  ⟨"lock", [.file_info], [.push (.cstr path), .pushvalue .file_info, .push (.int operation)], 4, .call⟩

def Callback.fallocate (path : Path) (mode : CInt.int.Val) (offset size : CInt.off_t.Val) : Callback :=
  ⟨"fallocate", [.file_info],
    [.push (.cstr path), .push (.int mode), .push (.int offset), .push (.int size), .pushvalue .file_info], 6,
    .call⟩

/-- The members of `struct fuse_operations` that are ever set. -/
inductive Operation
  | getattr | readlink | mknod | mkdir | unlink | rmdir | symlink | rename | link | chmod
  | chown | truncate | open | read | write | statfs | flush | release | fsync | setxattr
  | getxattr | listxattr | removexattr | opendir | readdir | releasedir | fsyncdir | init
  | destroy | access | create | ftruncate | fgetattr | lock | utimens | flock | fallocate
  deriving DecidableEq, Repr

def Operation.name : Operation → String
  | .getattr => "getattr"
  | .readlink => "readlink"
  | .mknod => "mknod"
  | .mkdir => "mkdir"
  | .unlink => "unlink"
  | .rmdir => "rmdir"
  | .symlink => "symlink"
  | .rename => "rename"
  | .link => "link"
  | .chmod => "chmod"
  | .chown => "chown"
  | .truncate => "truncate"
  | .open => "open"
  | .read => "read"
  | .write => "write"
  | .statfs => "statfs"
  | .flush => "flush"
  | .release => "release"
  | .fsync => "fsync"
  | .setxattr => "setxattr"
  | .getxattr => "getxattr"
  | .listxattr => "listxattr"
  | .removexattr => "removexattr"
  | .opendir => "opendir"
  | .readdir => "readdir"
  | .releasedir => "releasedir"
  | .fsyncdir => "fsyncdir"
  | .init => "init"
  | .destroy => "destroy"
  | .access => "access"
  | .create => "create"
  | .ftruncate => "ftruncate"
  | .fgetattr => "fgetattr"
  | .lock => "lock"
  | .utimens => "utimens"
  | .flock => "flock"
  | .fallocate => "fallocate"

/-- One call by libfuse, with the arguments that are not in the memory. -/
inductive Invocation
  | getattr (path : Path)
  | readlink (path : Path) (size : CInt.size_t.Val)
  | mknod (path : Path) (mode : CInt.mode_t.Val) (dev : CInt.dev_t.Val)
  | mkdir (path : Path) (mode : CInt.mode_t.Val)
  | unlink (path : Path)
  | rmdir (path : Path)
  | symlink (target path : Path)
  | rename (oldpath newpath : Path)
  | link (oldpath newpath : Path)
  | chmod (path : Path) (mode : CInt.mode_t.Val)
  | chown (path : Path) (uid : CInt.uid_t.Val) (gid : CInt.gid_t.Val)
  | truncate (path : Path) (size : CInt.off_t.Val)
  | open (path : Path)
  | read (path : Path) (size : CInt.size_t.Val) (offset : CInt.off_t.Val)
  | write (path : Path) (buffer : Nat → UInt8) (size : CInt.size_t.Val) (offset : CInt.off_t.Val)
  | statfs (path : Path)
  | flush (path : Path)
  | release (path : Path)
  | fsync (path : Path) (datasync : CInt.int.Val)
  | setxattr (path name : Path) (buffer : Nat → UInt8) (size : CInt.size_t.Val)
      (flags : CInt.int.Val)
  | getxattr (path name : Path) (size : CInt.size_t.Val)
  | listxattr (path : Path) (size : CInt.size_t.Val)
  | removexattr (path name : Path)
  | opendir (path : Path)
  | readdir (path : Path) (buffer function : Nat) (offset : CInt.off_t.Val)
  | releasedir (path : Path)
  | fsyncdir (path : Path) (datasync : CInt.int.Val)
  | init
  | destroy
  | access (path : Path) (mode : CInt.int.Val)
  | create (path : Path) (mode : CInt.mode_t.Val)
  | ftruncate (path : Path) (size : CInt.off_t.Val)
  | fgetattr (path : Path)
  | lock (path : Path) (command : CInt.int.Val)
  | utimens (path : Path) (times : Option (Struct timespec × Struct timespec))
  | flock (path : Path) (operation : CInt.int.Val)
  | fallocate (path : Path) (mode : CInt.int.Val) (offset size : CInt.off_t.Val)

def Invocation.operation : Invocation → Operation
  | .getattr .. => .getattr
  | .readlink .. => .readlink
  | .mknod .. => .mknod
  | .mkdir .. => .mkdir
  | .unlink .. => .unlink
  | .rmdir .. => .rmdir
  | .symlink .. => .symlink
  | .rename .. => .rename
  | .link .. => .link
  | .chmod .. => .chmod
  | .chown .. => .chown
  | .truncate .. => .truncate
  | .open .. => .open
  | .read .. => .read
  | .write .. => .write
  | .statfs .. => .statfs
  | .flush .. => .flush
  | .release .. => .release
  | .fsync .. => .fsync
  | .setxattr .. => .setxattr
  | .getxattr .. => .getxattr
  | .listxattr .. => .listxattr
  | .removexattr .. => .removexattr
  | .opendir .. => .opendir
  | .readdir .. => .readdir
  | .releasedir .. => .releasedir
  | .fsyncdir .. => .fsyncdir
  | .init => .init
  | .destroy => .destroy
  | .access .. => .access
  | .create .. => .create
  | .ftruncate .. => .ftruncate
  | .fgetattr .. => .fgetattr
  | .lock .. => .lock
  | .utimens .. => .utimens
  | .flock .. => .flock
  | .fallocate .. => .fallocate

def Invocation.callback : Invocation → Callback
  | .getattr path => .getattr path
  | .readlink path size => .readlink path size
  | .mknod path mode dev => .mknod path mode dev
  | .mkdir path mode => .mkdir path mode
  | .unlink path => .unlink path
  | .rmdir path => .rmdir path
  | .symlink target path => .symlink target path
  | .rename oldpath newpath => .rename oldpath newpath
  | .link oldpath newpath => .link oldpath newpath
  | .chmod path mode => .chmod path mode
  | .chown path uid gid => .chown path uid gid
  | .truncate path size => .truncate path size
  | .open path => .open path
  | .read path size offset => .read path size offset
  | .write path buffer size offset => .write path buffer size offset
  | .statfs path => .statfs path
  | .flush path => .flush path
  | .release path => .release path
  | .fsync path datasync => .fsync path datasync
  | .setxattr path name buffer size flags => .setxattr path name buffer size flags
  | .getxattr path name size => .getxattr path name size
  | .listxattr path size => .listxattr path size
  | .removexattr path name => .removexattr path name
  | .opendir path => .opendir path
  | .readdir path buffer function offset => .readdir path buffer function offset
  | .releasedir path => .releasedir path
  | .fsyncdir path datasync => .fsyncdir path datasync
  | .init => .init
  | .destroy => .destroy
  | .access path mode => .access path mode
  | .create path mode => .create path mode
  | .ftruncate path size => .ftruncate path size
  | .fgetattr path => .fgetattr path
  | .lock path command => .lock path command
  | .utimens path times => .utimens path times
  | .flock path operation => .flock path operation
  | .fallocate path mode offset size => .fallocate path mode offset size

/-! ## Installation -/

/-- The arguments of `DROMOZOA_SET_OPERATION`, in order. -/
def considered : List Operation :=
  [.getattr, .readlink, .mknod, .mkdir, .unlink, .rmdir, .symlink, .rename, .link, .chmod, .chown,
    .truncate, .open, .read, .write, .statfs, .flush, .release, .fsync, .setxattr, .getxattr,
    .listxattr, .removexattr, .opendir, .readdir, .releasedir, .fsyncdir, .access, .create,
    .ftruncate, .fgetattr, .lock, .utimens, .flock, .fallocate]

variable {X : Type} (I : Interp (Host X))

/-- The callback in each slot of `ops_`. -/
abbrev Slots : Type := Operation → Option Operation

def Slots.set (ops : Slots) (n : Operation) : Slots := Function.update ops n (some n)

def SET_OPERATION (ops : Slots) (n : Operation) : OpM X Slots := do
  if ← check I n.name then return ops.set n
  else return ops

/-- The constructor of `operations`: `ops_`. -/
def operations : OpM X Slots :=
  managed_state do
    let save ← lua_gettop
    let ops : Slots := fun _ => none
    let ops ← considered.foldlM (SET_OPERATION I) ((ops.set .init).set .destroy)
    lua_settop save
    return ops

end DromozoaFuse.Operations
