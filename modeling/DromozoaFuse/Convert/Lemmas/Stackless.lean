import DromozoaFuse.Convert.Convert

/-!
# The conversions without the stack

The objects that a conversion works on, in place of their indices. Each conversion leaves the stack as
it was, but for the table that a conversion to a table pushes.
-/

namespace DromozoaFuse.Convert

open Base Lua DromozoaFuse.Bind

variable {H M : Type} (I : Interp H) {S : Layout}

theorem forM_run {α : Type} {f : α → LuaM H M Unit} {g : α → HostM H M Unit} {stk : List Value}
    (xs : List α) (h : ∀ x ∈ xs, (f x).run stk = (fun _ => ((), stk)) <$> g x) :
    (xs.forM f).run stk = (fun _ => ((), stk)) <$> xs.forM g := by
  induction xs with
  | nil => simp
  | cons x xs ih =>
      have hx := h x (by simp)
      have hxs := ih fun y hy => h y (List.mem_cons_of_mem _ hy)
      simp only [List.forM_eq_forM, List.forM_cons] at hxs ⊢
      simp [hx, hxs]

/-! ## From structs to tables -/

def field_value (that : Struct S) (k : S.Member) : Value := (Datum.int (member that k)).value

def build (fields : List (Bytes × Value)) : HostM H M Nat := do
  let r ← newtable
  fields.forM fun field => I.settable (.table r) (.string field.1) field.2
  return r

theorem to_table_run (ks : List S.Member) (that : Struct S) (stk : List Value) :
    (to_table I S ks that : LuaM H M Int).run stk =
      (fun r => ((stk.length + 1 : Int), .table r :: stk)) <$>
        build I (ks.map fun k => (key k, field_value that k)) := by
  have hfields : ∀ r, (ks.forM (SET_FIELD I ((stk.length : Int) + 1) that) : LuaM H M Unit).run
      (.table r :: stk) = (fun _ => ((), .table r :: stk)) <$>
        ks.forM fun k => I.settable (.table r) (.string (key k)) (field_value that k) :=
    fun r => forM_run ks fun k _ => luaX_set_field_run I (slot_length _ stk) (key k) (.int (member that k))
  simp only [List.forM_eq_forM] at hfields
  simp [to_table, build, hfields]

/-- The fields that a conversion to a table sets, by the statements of the conversion back. -/
def encoded (steps : List (Step S)) (that : Struct S) : List (Bytes × Value) :=
  steps.filterMap fun
    | .OPT_FIELD k => some (key k, field_value that k)
    | .stream k => some (key k, .string (decimal (that k).val.toNat))
    | _ => none

theorem convert_conn_info_run (that : Struct fuse_conn_info) (stk : List Value) :
    (convert_conn_info I that : LuaM H M Int).run stk =
      (fun r => ((stk.length + 1 : Int), .table r :: stk)) <$> build I (encoded conn_info_steps that) :=
  to_table_run I _ that stk

theorem convert_flock_run (that : Struct flock) (stk : List Value) :
    (convert_flock I that : LuaM H M Int).run stk =
      (fun r => ((stk.length + 1 : Int), .table r :: stk)) <$> build I (encoded flock_steps that) :=
  to_table_run I _ that stk

theorem convert_file_info_run (that : Struct fuse_file_info) (stk : List Value) :
    (convert_file_info I that : LuaM H M Int).run stk =
      (fun r => ((stk.length + 1 : Int), .table r :: stk)) <$> build I (encoded file_info_steps that) := by
  have hlock : ∀ r, (luaX_set_field I ((stk.length : Int) + 1) (bytes "lock_owner")
      (.str (decimal (that .lock_owner).val.toNat)) : LuaM H M Unit).run (.table r :: stk) =
      (fun _ => ((), .table r :: stk)) <$> I.settable (.table r) (.string (bytes "lock_owner"))
        (.string (decimal (that .lock_owner).val.toNat)) :=
    fun r => luaX_set_field_run I (slot_length _ stk) _ _
  have hencoded : encoded file_info_steps that =
      ([.flags, .writepage, .direct_io, .keep_cache, .flush, .nonseekable, .flock_release, .fh].map
        fun k => (key (S := fuse_file_info) k, field_value that k)) ++
        [(bytes "lock_owner", .string (decimal (that .lock_owner).val.toNat))] := rfl
  rw [hencoded]
  simp only [convert_file_info, StateT.run_bind, to_table_run, bind_map_left, hlock, StateT.run_pure]
  simp [build]

/-! ## From tables to structs -/

def timespec_key (o : Value) (key : Bytes) : HostM H M (Option (Struct timespec)) := do
  let v ← I.gettable o (.string key)
  match v with
  | .number t => return some (timespec_of_number t.toDouble)
  | .table r => do
      let tv_sec ← opt_integer_field I CInt.time_t (.table r) (bytes "tv_sec") (CInt.time_t.wrap 0)
        CInt.time_t.min CInt.time_t.max
      let tv_nsec ← opt_integer_field I CInt.long (.table r) (bytes "tv_nsec") (CInt.long.wrap 0)
        0 999999999
      return some (mk_timespec tv_sec tv_nsec)
  | _ => return none

theorem convert_timespec_key_run {stk : List Value} {index : Int} {o : Value}
    (h : slot stk index = some o) (key : Bytes) :
    (convert_timespec_key I index key : LuaM H M _).run stk =
      (fun t => (t, stk)) <$> timespec_key I o key := by
  simp only [convert_timespec_key, timespec_key, StateT.run_bind, luaX_get_field_run I h, bind_map_left,
    map_bind]
  congr 1
  funext v
  cases v with
  | table r =>
      simp [Value.type, luaX_opt_integer_field_run I (slot_top (.table r) stk)]
  | number n => simp [Value.type]
  | _ => simp [Value.type]

def timespec_keys (o : Value) (key1 key2 key3 : Bytes) : HostM H M (Struct timespec) := do
  match ← timespec_key I o key1 with
  | some tv => return tv
  | none =>
      match ← timespec_key I o key2 with
      | some tv => return tv
      | none =>
          match ← timespec_key I o key3 with
          | some tv => return tv
          | none => return zero

theorem convert_timespec_keys_run {stk : List Value} {index : Int} {o : Value}
    (h : slot stk index = some o) (key1 key2 key3 : Bytes) :
    (convert_timespec_keys I index key1 key2 key3 : LuaM H M _).run stk =
      (fun t => (t, stk)) <$> timespec_keys I o key1 key2 key3 := by
  simp only [convert_timespec_keys, timespec_keys, StateT.run_bind, convert_timespec_key_run I h,
    bind_map_left, map_bind]
  congr 1
  funext t
  cases t with
  | some tv => simp
  | none =>
      simp only [StateT.run_bind, convert_timespec_key_run I h, bind_map_left, map_bind]
      congr 1
      funext t
      cases t with
      | some tv => simp
      | none =>
          simp only [StateT.run_bind, convert_timespec_key_run I h, bind_map_left, map_bind]
          congr 1
          funext t
          cases t <;> simp

variable (p : Ptr M (Struct S))

def Step.exec (o : Value) : Step S → HostM H M Unit
  | .memset => write p fun _ => zero
  | .OPT_FIELD k => do
      let that ← read p
      let i ← opt_integer_field I (S.type k) o (key k) (member that k) (S.type k).min (S.type k).max
      write p (assign · k i.val)
  | .stream k => do
      let v ← I.gettable o (.string (key k))
      match I.tolstring v with
      | some s => write p fun that => assign that k (extract_unsigned (S.type k) s (member that k)).val
      | none => pure ()
  | .timespec tv key1 key2 key3 => do
      let t ← timespec_keys I o (bytes key1) (bytes key2) (bytes key3)
      write p fun that => assign (assign that (tv .tv_sec) (t .tv_sec).val) (tv .tv_nsec) (t .tv_nsec).val

theorem Step.run_eq {stk : List Value} {index : Int} {o : Value} (h : slot stk index = some o)
    (step : Step S) :
    (step.run I p index : LuaM H M Unit).run stk = (fun _ => ((), stk)) <$> step.exec I p o := by
  cases step with
  | memset => simp [Step.run, Step.exec]
  | OPT_FIELD k => simp [Step.run, Step.exec, luaX_opt_integer_field_run I h]
  | stream k =>
      simp only [Step.run, Step.exec, StateT.run_bind, luaX_get_field_run I h, bind_map_left,
        luaX_to_string, lua_tolstring_run, pure_bind, map_bind]
      congr 1
      funext v
      cases I.tolstring v <;> simp
  | timespec tv key1 key2 key3 => simp [Step.run, Step.exec, convert_timespec_keys_run I h]

def decode (steps : List (Step S)) (o : Value) : HostM H M Bool :=
  if o.type = .table then do
    steps.forM (Step.exec I p o)
    return true
  else return false

theorem from_table_run {stk : List Value} {index : Int} {o : Value} (h : slot stk index = some o)
    (steps : List (Step S)) :
    (from_table I p steps index : LuaM H M Bool).run stk = (fun b => (b, stk)) <$> decode I p steps o := by
  have hsteps := forM_run steps fun step _ => Step.run_eq I p h step
  simp only [List.forM_eq_forM] at hsteps
  by_cases ho : o.type = .table <;> simp [from_table, decode, h, ho, hsteps]

theorem convert_exec (t : Target) (p : Ptr M (Struct t.layout)) {stk : List Value} {index : Int} {o : Value}
    (h : slot stk index = some o) (w : World H M) :
    ((convert I t p index).run stk).exec w =
      (((decode I p t.steps o).exec w).1.map fun b => (b, stk), ((decode I p t.steps o).exec w).2) := by
  rw [convert, from_table_run I p h, Prog.exec_map]

end DromozoaFuse.Convert
