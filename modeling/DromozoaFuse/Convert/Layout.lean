import DromozoaFuse.Base.CInt
import Mathlib.Logic.Function.Basic

/-!
# The C structs

The structs of FUSE 2.9 and of the x86-64 Linux C library that `convert` reads and writes, by their
integer members. A bit-field has fewer bits than its declared type, which is the type that
`std::numeric_limits` and template deduction see.
-/

namespace DromozoaFuse.Convert

open Base

structure Layout where
  Member : Type
  decEq : DecidableEq Member
  name : Member → String
  type : Member → CInt
  bits : Member → Nat
  bits_pos : ∀ k, 0 < bits k
  bits_le : ∀ k, bits k ≤ (type k).width
  width_le : ∀ k, (type k).width ≤ 64

instance (S : Layout) : DecidableEq S.Member := S.decEq

variable {S : Layout}

/-- What is stored of a member. -/
def Layout.store (S : Layout) (k : S.Member) : CInt := ⟨(S.type k).signed, S.bits k⟩

abbrev Struct (S : Layout) : Type := (k : S.Member) → (S.store k).Val

/-- The value of a member, in its declared type. -/
def member (that : Struct S) (k : S.Member) : (S.type k).Val :=
  ⟨(that k).val, (that k).mem.widen (S.bits_le k)⟩

/-- `that->k = i` -/
def assign (that : Struct S) (k : S.Member) (i : Int) : Struct S :=
  Function.update that k ((S.store k).wrap i)

@[simp] theorem assign_self (that : Struct S) (k : S.Member) (i : Int) :
    assign that k i k = (S.store k).wrap i := Function.update_self ..

theorem assign_of_ne (that : Struct S) {j k : S.Member} (h : j ≠ k) (i : Int) :
    assign that k i j = that j := Function.update_of_ne h ..

/-- `memset(that, 0, sizeof(*that))` -/
def zero : Struct S := fun k => (S.store k).wrap 0

/-! ## `struct fuse_conn_info` -/

inductive conn_info_member
  | proto_major | proto_minor | async_read | max_write | max_readahead | capable | want
  | max_background | congestion_threshold | reserved (i : Fin 23)
  deriving DecidableEq, Repr

def fuse_conn_info : Layout where
  Member := conn_info_member
  decEq := inferInstance
  name
    | .proto_major => "proto_major"
    | .proto_minor => "proto_minor"
    | .async_read => "async_read"
    | .max_write => "max_write"
    | .max_readahead => "max_readahead"
    | .capable => "capable"
    | .want => "want"
    | .max_background => "max_background"
    | .congestion_threshold => "congestion_threshold"
    | .reserved _ => "reserved"
  type := fun _ => CInt.unsigned_int
  bits := fun _ => 32
  bits_pos := fun _ => by decide
  bits_le := fun _ => Nat.le_refl _
  width_le := fun _ => by decide

/-! ## `struct fuse_file_info` -/

inductive file_info_member
  | flags | fh_old | writepage | direct_io | keep_cache | flush | nonseekable | flock_release
  | padding | fh | lock_owner
  deriving DecidableEq, Repr

def fuse_file_info : Layout where
  Member := file_info_member
  decEq := inferInstance
  name
    | .flags => "flags"
    | .fh_old => "fh_old"
    | .writepage => "writepage"
    | .direct_io => "direct_io"
    | .keep_cache => "keep_cache"
    | .flush => "flush"
    | .nonseekable => "nonseekable"
    | .flock_release => "flock_release"
    | .padding => "padding"
    | .fh => "fh"
    | .lock_owner => "lock_owner"
  type
    | .flags => CInt.int
    | .fh_old => CInt.unsigned_long
    | .writepage => CInt.int
    | .direct_io | .keep_cache | .flush | .nonseekable | .flock_release | .padding => CInt.unsigned_int
    | .fh | .lock_owner => CInt.uint64_t
  bits
    | .flags | .writepage => 32
    | .direct_io | .keep_cache | .flush | .nonseekable | .flock_release => 1
    | .padding => 27
    | .fh_old | .fh | .lock_owner => 64
  bits_pos := by intro k; cases k <;> decide
  bits_le := by intro k; cases k <;> decide
  width_le := by intro k; cases k <;> decide

/-! ## `struct flock` -/

inductive flock_member
  | l_type | l_whence | l_start | l_len | l_pid
  deriving DecidableEq, Repr

def flock : Layout where
  Member := flock_member
  decEq := inferInstance
  name
    | .l_type => "l_type"
    | .l_whence => "l_whence"
    | .l_start => "l_start"
    | .l_len => "l_len"
    | .l_pid => "l_pid"
  type
    | .l_type | .l_whence => CInt.short
    | .l_start | .l_len => CInt.off_t
    | .l_pid => CInt.pid_t
  bits
    | .l_type | .l_whence => 16
    | .l_start | .l_len => 64
    | .l_pid => 32
  bits_pos := by intro k; cases k <;> decide
  bits_le := by intro k; cases k <;> decide
  width_le := by intro k; cases k <;> decide

/-! ## `struct timespec` -/

inductive timespec_member
  | tv_sec | tv_nsec
  deriving DecidableEq, Repr

def timespec : Layout where
  Member := timespec_member
  decEq := inferInstance
  name
    | .tv_sec => "tv_sec"
    | .tv_nsec => "tv_nsec"
  type
    | .tv_sec => CInt.time_t
    | .tv_nsec => CInt.long
  bits := fun _ => 64
  bits_pos := by intro k; cases k <;> decide
  bits_le := by intro k; cases k <;> decide
  width_le := by intro k; cases k <;> decide

/-! ## `struct stat` -/

inductive stat_member
  | st_dev | st_ino | st_mode | st_nlink | st_uid | st_gid | st_rdev | st_size
  | st_atim (k : timespec_member) | st_mtim (k : timespec_member) | st_ctim (k : timespec_member)
  | st_blksize | st_blocks
  deriving DecidableEq, Repr

def stat : Layout where
  Member := stat_member
  decEq := inferInstance
  name
    | .st_dev => "st_dev"
    | .st_ino => "st_ino"
    | .st_mode => "st_mode"
    | .st_nlink => "st_nlink"
    | .st_uid => "st_uid"
    | .st_gid => "st_gid"
    | .st_rdev => "st_rdev"
    | .st_size => "st_size"
    | .st_atim _ => "st_atim"
    | .st_mtim _ => "st_mtim"
    | .st_ctim _ => "st_ctim"
    | .st_blksize => "st_blksize"
    | .st_blocks => "st_blocks"
  type
    | .st_dev | .st_rdev => CInt.dev_t
    | .st_ino => CInt.ino_t
    | .st_mode => CInt.mode_t
    | .st_nlink => CInt.nlink_t
    | .st_uid | .st_gid => CInt.uid_t
    | .st_size => CInt.off_t
    | .st_atim k | .st_mtim k | .st_ctim k => timespec.type k
    | .st_blksize => CInt.blksize_t
    | .st_blocks => CInt.blkcnt_t
  bits
    | .st_mode | .st_uid | .st_gid => 32
    | _ => 64
  bits_pos := by intro k; split <;> decide
  bits_le := by
    intro k
    cases k with
    | st_atim k => cases k <;> decide
    | st_mtim k => cases k <;> decide
    | st_ctim k => cases k <;> decide
    | _ => decide
  width_le := by
    intro k
    cases k with
    | st_atim k => cases k <;> decide
    | st_mtim k => cases k <;> decide
    | st_ctim k => cases k <;> decide
    | _ => decide

/-! ## `struct statvfs` -/

inductive statvfs_member
  | f_bsize | f_frsize | f_blocks | f_bfree | f_bavail | f_files | f_ffree | f_favail | f_fsid
  | f_flag | f_namemax
  deriving DecidableEq, Repr

def statvfs : Layout where
  Member := statvfs_member
  decEq := inferInstance
  name
    | .f_bsize => "f_bsize"
    | .f_frsize => "f_frsize"
    | .f_blocks => "f_blocks"
    | .f_bfree => "f_bfree"
    | .f_bavail => "f_bavail"
    | .f_files => "f_files"
    | .f_ffree => "f_ffree"
    | .f_favail => "f_favail"
    | .f_fsid => "f_fsid"
    | .f_flag => "f_flag"
    | .f_namemax => "f_namemax"
  type := fun _ => CInt.unsigned_long
  bits := fun _ => 64
  bits_pos := fun _ => by decide
  bits_le := fun _ => Nat.le_refl _
  width_le := fun _ => by decide

/-! ## `struct fuse_operations`

The bit-fields behind the function pointers.
-/

inductive operations_member
  | flag_nullpath_ok | flag_nopath | flag_utime_omit_ok | flag_reserved
  deriving DecidableEq, Repr

def fuse_operations : Layout where
  Member := operations_member
  decEq := inferInstance
  name
    | .flag_nullpath_ok => "flag_nullpath_ok"
    | .flag_nopath => "flag_nopath"
    | .flag_utime_omit_ok => "flag_utime_omit_ok"
    | .flag_reserved => "flag_reserved"
  type := fun _ => CInt.unsigned_int
  bits
    | .flag_reserved => 29
    | _ => 1
  bits_pos := by intro k; cases k <;> decide
  bits_le := by intro k; cases k <;> decide
  width_le := fun _ => by decide

end DromozoaFuse.Convert
