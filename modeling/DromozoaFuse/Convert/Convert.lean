import DromozoaFuse.Base.Decimal
import DromozoaFuse.Base.Ptr
import DromozoaFuse.Bind.LuaX
import DromozoaFuse.Convert.Layout

/-!
# `convert`

The conversions between C structs and tables. A conversion to a struct is a list of steps, one for
each statement of the source, taken in order.
-/

namespace DromozoaFuse.Convert

open Base Lua DromozoaFuse.Bind

variable {H M : Type} (I : Interp H) {S : Layout}

/-- `#k` -/
def key (k : S.Member) : Bytes := bytes (S.name k)

/-! ## From structs to tables -/

/-- `DROMOZOA_SET_FIELD(k)` -/
def SET_FIELD (index : Int) (that : Struct S) (k : S.Member) : LuaM H M Unit :=
  luaX_set_field I index (key k) (.int (member that k))

/-- A table with the members `ks`; its index. -/
def to_table (S : Layout) (ks : List S.Member) (that : Struct S) : LuaM H M Int := do
  lua_newtable
  let index ← lua_gettop
  ks.forM (SET_FIELD I index that)
  return index

/-- `convert(lua_State*, const struct fuse_conn_info*)` -/
def convert_conn_info (that : Struct fuse_conn_info) : LuaM H M Int :=
  to_table I fuse_conn_info [.proto_major, .proto_minor, .async_read, .max_write, .max_readahead, .capable, .want,
    .max_background, .congestion_threshold] that

/-- `convert(lua_State*, const struct fuse_file_info*)` -/
def convert_file_info (that : Struct fuse_file_info) : LuaM H M Int := do
  let index ← to_table I fuse_file_info [.flags, .writepage, .direct_io, .keep_cache, .flush, .nonseekable,
    .flock_release, .fh] that
  luaX_set_field I index (bytes "lock_owner") (.str (decimal (that .lock_owner).val.toNat))
  return index

/-- `convert(lua_State*, const struct flock*)` -/
def convert_flock (that : Struct flock) : LuaM H M Int :=
  to_table I flock [.l_type, .l_whence, .l_start, .l_len, .l_pid] that

/-- `convert(lua_State*, const struct timespec*)` -/
def convert_timespec (that : Struct timespec) : LuaM H M Int :=
  to_table I timespec [.tv_sec, .tv_nsec] that

/-! ## From tables to structs -/

/-- One statement of a conversion. The three times of `struct stat` are read under three names each
and have a member for the seconds and one for the nanoseconds. -/
inductive Step (S : Layout)
  | memset
  | OPT_FIELD (k : S.Member)
  | stream (k : S.Member)
  | timespec (tv : timespec_member → S.Member) (key1 key2 key3 : String)

def mk_timespec (tv_sec : CInt.time_t.Val) (tv_nsec : CInt.long.Val) : Struct timespec
  | .tv_sec => tv_sec
  | .tv_nsec => tv_nsec

/-- `modf` and the conversions of its results to `time_t` and `long`. -/
def timespec_of_number : Double → Struct timespec
  | .finite q =>
      let i : ℚ := (q.num.tdiv q.den : Int)
      let f := q - i
      mk_timespec (Double.finite i).truncate (Double.finite (f * 1000000000)).truncate
  | .infinite b => mk_timespec (Double.infinite b).truncate (CInt.long.wrap 0)
  | .nan => mk_timespec Double.nan.truncate Double.nan.truncate

/-- `convert_timespec` of one key: the time, if the field is a number or a table. -/
def convert_timespec_key (index : Int) (key : Bytes) : LuaM H M (Option (Struct timespec)) := do
  let type ← luaX_get_field I index key
  if type = .number then
    let t ← lua_tonumber I (-1)
    lua_pop 1
    return some (timespec_of_number t)
  else if type = .table then
    let tv_sec ← luaX_opt_integer_field I CInt.time_t (-1) (bytes "tv_sec") (CInt.time_t.wrap 0)
      CInt.time_t.min CInt.time_t.max
    let tv_nsec ← luaX_opt_integer_field I CInt.long (-1) (bytes "tv_nsec") (CInt.long.wrap 0)
      0 999999999
    lua_pop 1
    return some (mk_timespec tv_sec tv_nsec)
  else
    lua_pop 1
    return none

/-- `convert_timespec` of three keys. -/
def convert_timespec_keys (index : Int) (key1 key2 key3 : Bytes) : LuaM H M (Struct timespec) := do
  match ← convert_timespec_key I index key1 with
  | some tv => return tv
  | none =>
      match ← convert_timespec_key I index key2 with
      | some tv => return tv
      | none =>
          match ← convert_timespec_key I index key3 with
          | some tv => return tv
          | none => return zero

variable (p : Ptr M (Struct S))

def read : HostM H M (Struct S) := do return p.get (← get).mem

def write (f : Struct S → Struct S) : HostM H M Unit := modifyMem fun m => p.set m (f (p.get m))

def Step.run (index : Int) : Step S → LuaM H M Unit
  | .memset => onHost (write p fun _ => zero)
  | .OPT_FIELD k => do
      let that ← onHost (read p)
      let i ← luaX_opt_integer_field I (S.type k) index (key k) (member that k) (S.type k).min (S.type k).max
      onHost (write p (assign · k i.val))
  | .stream k => do
      let _ ← luaX_get_field I index (key k)
      match ← luaX_to_string I (-1) with
      | some s => onHost (write p fun that => assign that k (extract_unsigned (S.type k) s (member that k)).val)
      | none => pure ()
      lua_pop 1
  | .timespec tv key1 key2 key3 => do
      let t ← convert_timespec_keys I index (bytes key1) (bytes key2) (bytes key3)
      onHost (write p fun that =>
        assign (assign that (tv .tv_sec) (t .tv_sec).val) (tv .tv_nsec) (t .tv_nsec).val)

/-- A conversion of the value at an index; false if it is not a table. -/
def from_table (steps : List (Step S)) (index : Int) : LuaM H M Bool := do
  if ← lua_istable index then
    steps.forM (Step.run I p index)
    return true
  else return false

def conn_info_steps : List (Step fuse_conn_info) :=
  [.OPT_FIELD .proto_major, .OPT_FIELD .proto_minor, .OPT_FIELD .async_read, .OPT_FIELD .max_write,
    .OPT_FIELD .max_readahead, .OPT_FIELD .capable, .OPT_FIELD .want, .OPT_FIELD .max_background,
    .OPT_FIELD .congestion_threshold]

def operations_steps : List (Step fuse_operations) :=
  [.OPT_FIELD .flag_nullpath_ok, .OPT_FIELD .flag_nopath, .OPT_FIELD .flag_utime_omit_ok]

def file_info_steps : List (Step fuse_file_info) :=
  [.OPT_FIELD .flags, .OPT_FIELD .writepage, .OPT_FIELD .direct_io, .OPT_FIELD .keep_cache,
    .OPT_FIELD .flush, .OPT_FIELD .nonseekable, .OPT_FIELD .flock_release, .OPT_FIELD .fh,
    .stream .lock_owner]

def flock_steps : List (Step flock) :=
  [.OPT_FIELD .l_type, .OPT_FIELD .l_whence, .OPT_FIELD .l_start, .OPT_FIELD .l_len, .OPT_FIELD .l_pid]

def stat_steps : List (Step stat) :=
  [.memset, .OPT_FIELD .st_dev, .OPT_FIELD .st_ino, .OPT_FIELD .st_mode, .OPT_FIELD .st_nlink,
    .OPT_FIELD .st_uid, .OPT_FIELD .st_gid, .OPT_FIELD .st_size,
    .timespec .st_atim "st_atim" "st_atimespec" "st_atime",
    .timespec .st_mtim "st_mtim" "st_mtimespec" "st_mtime",
    .timespec .st_ctim "st_ctim" "st_ctimespec" "st_ctime",
    .OPT_FIELD .st_blksize, .OPT_FIELD .st_blocks]

def statvfs_steps : List (Step statvfs) :=
  [.memset, .OPT_FIELD .f_bsize, .OPT_FIELD .f_frsize, .OPT_FIELD .f_blocks, .OPT_FIELD .f_bfree,
    .OPT_FIELD .f_bavail, .OPT_FIELD .f_files, .OPT_FIELD .f_ffree, .OPT_FIELD .f_favail,
    .OPT_FIELD .f_fsid, .OPT_FIELD .f_flag, .OPT_FIELD .f_namemax]

/-- The structs that tables are converted to. -/
inductive Target
  | conn_info | operations | file_info | flock | stat | statvfs
  deriving DecidableEq, Repr

@[reducible] def Target.layout : Target → Layout
  | .conn_info => fuse_conn_info
  | .operations => fuse_operations
  | .file_info => fuse_file_info
  | .flock => Convert.flock
  | .stat => Convert.stat
  | .statvfs => Convert.statvfs

def Target.steps : (t : Target) → List (Step t.layout)
  | .conn_info => conn_info_steps
  | .operations => operations_steps
  | .file_info => file_info_steps
  | .flock => flock_steps
  | .stat => stat_steps
  | .statvfs => statvfs_steps

/-- `convert(lua_State*, int, struct ...*)` -/
def convert (t : Target) (p : Ptr M (Struct t.layout)) (index : Int) : LuaM H M Bool :=
  from_table I p t.steps index

end DromozoaFuse.Convert
