import DromozoaFuse.Lua.Api

/-!
# The `luaX` functions

Each function of `luaX.hpp` as a program of the API, and what it comes to on a given stack: a pure
function of the values it looks at, or a stackless program.
-/

namespace DromozoaFuse.Bind

open Base Lua

variable {H M : Type} (I : Interp H)

/-! ## Pushing -/

/-- What `luaX_push` is given. A `const char*` may be null. -/
inductive Datum
  | nil
  | int {T : CInt} (v : T.Val)
  | cstr (s : Option Bytes)
  | str (s : Bytes)

/-- `lua_pushnil`, `lua_pushinteger`, `lua_pushstring` and `lua_pushlstring`. -/
def Datum.value : Datum → Value
  | .nil => .nil
  | .int v => .integer (CInt.int64_t.wrap v.val)
  | .cstr s => (s.map Value.string).getD .nil
  | .str s => .string s

def luaX_push (d : Datum) : LuaM H M Unit := lua_push d.value

@[simp] theorem luaX_push_run (d : Datum) (stk : List Value) :
    (luaX_push d : LuaM H M Unit).run stk = pure ((), d.value :: stk) := rfl

/-! ## Integers -/

def luaX_is_integer (index : Int) : LuaM H M Bool := do
  if ← lua_isinteger index then return true
  if (← lua_type index) = .number then
    let u ← lua_tonumber I index
    if u.isfinite then
      lua_push (.integer u.truncate)
      let v ← lua_tonumber I (-1)
      lua_pop 1
      return u = v
  return false

/-- The integer that a number value stands for. -/
def integer? : Value → Option CInt.int64_t.Val
  | .number n => n.toInteger?
  | _ => none

theorem truncate_eq_iff (q : ℚ) :
    Double.finite q = .finite ((Double.finite q).truncate.val : ℚ) ↔ q.den = 1 ∧ CInt.int64_t.Mem q.num := by
  rw [Double.finite.injEq]
  constructor
  · intro h
    have hq : q.den = 1 ∧ q.num = (Double.finite q).truncate.val := by
      constructor
      · rw [h]; exact Rat.den_intCast _
      · conv_lhs => rw [h]
        exact Rat.num_intCast _
    exact ⟨hq.1, hq.2 ▸ (Double.finite q).truncate.mem⟩
  · rintro ⟨hd, hm⟩
    have ht : (Double.finite q).truncate.val = q.num := by
      have he : q.num.tdiv q.den = q.num := by rw [hd]; exact Int.tdiv_one _
      simp only [Double.truncate, he, dif_pos hm]
    rw [ht]
    exact (Rat.den_eq_one_iff q).mp hd |>.symm

theorem isfinite_truncate (x : Double) :
    (x.isfinite && decide (x = .finite (x.truncate.val : ℚ))) = (Number.toInteger? (.float x)).isSome := by
  cases x with
  | finite q =>
      simp only [Double.isfinite, Bool.true_and, truncate_eq_iff, Number.toInteger?]
      split <;> simp_all
  | infinite b => rfl
  | nan => rfl

@[simp] theorem luaX_is_integer_run (v : Value) (stk : List Value) :
    (luaX_is_integer I (-1) : LuaM H M Bool).run (v :: stk) = pure ((integer? v).isSome, v :: stk) := by
  cases v with
  | number n =>
      cases n with
      | integer i => rfl
      | float x =>
          rw [integer?, ← isfinite_truncate]
          by_cases hx : x.isfinite = true
          · simp [luaX_is_integer, lua_isinteger, Value.type, Value.integer, Number.toDouble, hx]
            rfl
          · simp [luaX_is_integer, lua_isinteger, Value.type, Number.toDouble, hx]
  | _ => simp [luaX_is_integer, lua_isinteger, Value.type, integer?]

theorem tointeger_of_integer? {v : Value} {i : CInt.int64_t.Val} (h : integer? v = some i) :
    I.tointeger v = i := by
  cases v with
  | number n => simp_all [integer?, Interp.tointeger, Interp.tonumber]
  | _ => simp [integer?] at h

/-- `luaX_integer_traits<T>::convert`: the target, unless the source is out of bounds. -/
def luaX_integer_traits_convert (T : CInt) (source : CInt.intmax_t.Val) (min max : Int) : Option T.Val :=
  if T.signed then
    if min ≤ source.val ∧ source.val ≤ max then some (T.wrap source.val) else none
  else if 0 ≤ source.val then
    if min ≤ source.val ∧ source.val ≤ max then some (T.wrap source.val) else none
  else none

theorem luaX_integer_traits_convert_eq {T : CInt} {source : CInt.intmax_t.Val} {min max : Int}
    (hmin : T.signed = false → 0 ≤ min) :
    luaX_integer_traits_convert T source min max =
      if min ≤ source.val ∧ source.val ≤ max then some (T.wrap source.val) else none := by
  unfold luaX_integer_traits_convert
  cases hs : T.signed with
  | true => simp
  | false =>
      have := hmin hs
      split_ifs <;> first | rfl | omega

/-! ## Strings -/

def luaX_to_string (index : Int) : LuaM H M (Option Bytes) := lua_tolstring I index

/-- A byte as `quote_impl` writes it. `char` is signed, so a byte from 0x80 on is written as it is. -/
def quote_byte (c : UInt8) : Bytes :=
  match c with
  | 7 => bytes "\\a"
  | 8 => bytes "\\b"
  | 12 => bytes "\\f"
  | 10 => bytes "\\n"
  | 13 => bytes "\\r"
  | 9 => bytes "\\t"
  | 11 => bytes "\\v"
  | 92 => bytes "\\\\"
  | 34 => bytes "\\\""
  | 39 => bytes "\\'"
  | c => if c < 0x20 ∨ c = 0x7F then bytes "\\" ++ bytes (toString c.toNat) else [c]

def quote (s : Bytes) : Bytes := bytes "\"" ++ s.flatMap quote_byte ++ bytes "\""

/-! ## Fields -/

/-- `luaX_field_error`; the 5 pieces of the message are on the stack when they are joined. -/
def luaX_field_error {α : Type} (key : Bytes) (what : String) : LuaM H M α := do
  luaL_where I
  luaX_push (.cstr (bytes "field "))
  luaX_push (.str (quote key))
  luaX_push (.cstr (bytes " "))
  luaX_push (.cstr (bytes what))
  lua_concat I 5
  lua_error

def field_message (w : World H M) (key : Bytes) (what : String) : Value :=
  .string (I.position w.heap ++ (bytes "field " ++ (quote key ++ (bytes " " ++ bytes what))))

def field_error {α : Type} (key : Bytes) (what : String) : HostM H M α := do
  throw (field_message I (← get) key what)

@[simp] theorem field_error_exec {α : Type} (key : Bytes) (what : String) (w : World H M) :
    (field_error I key what : HostM H M α).exec w = (.error (field_message I w key what), w) := rfl

@[simp] theorem luaX_field_error_run {α : Type} (key : Bytes) (what : String) (stk : List Value) :
    (luaX_field_error I key what : LuaM H M α).run stk =
      (fun a => (a, stk)) <$> field_error I key what := by
  simp [luaX_field_error, field_error, field_message, Datum.value, lua_concat, Interp.tolstring]

@[simp] theorem field_error_bind {α β : Type} (key : Bytes) (what : String) (f : α → HostM H M β) :
    (field_error I key what >>= f) = field_error I key what := by
  simp [field_error]

@[simp] theorem map_field_error {α β : Type} (key : Bytes) (what : String) (f : α → β) :
    f <$> (field_error I key what : HostM H M α) = field_error I key what := by
  simp [field_error]

def luaX_set_field (index : Int) (key : Bytes) (d : Datum) : LuaM H M Unit := do
  let index ← lua_absindex index
  lua_push (.string key)
  luaX_push d
  lua_settable I index

theorem luaX_set_field_run {stk : List Value} {index : Int} {o : Value} (h : slot stk index = some o)
    (key : Bytes) (d : Datum) :
    (luaX_set_field I index key d : LuaM H M Unit).run stk =
      (fun _ => ((), stk)) <$> I.settable o (.string key) d.value := by
  obtain ⟨hpos, habs⟩ := absindex_slot h
  have hslot : slot (d.value :: .string key :: stk) (absindex stk index) = some o :=
    slot_append hpos habs [d.value, .string key]
  simp [luaX_set_field, hslot]

def luaX_get_field (index : Int) (key : Bytes) : LuaM H M LuaType := do
  let index ← lua_absindex index
  lua_push (.string key)
  lua_gettable I index

theorem luaX_get_field_run {stk : List Value} {index : Int} {o : Value} (h : slot stk index = some o)
    (key : Bytes) :
    (luaX_get_field I index key : LuaM H M LuaType).run stk =
      (fun v => (v.type, v :: stk)) <$> I.gettable o (.string key) := by
  obtain ⟨hpos, habs⟩ := absindex_slot h
  simp [luaX_get_field, slot_cons hpos habs]

def luaX_opt_integer_field_impl (T : CInt) (index : Int) (key : Bytes) (d : T.Val) :
    LuaM H M CInt.intmax_t.Val := do
  let index ← lua_absindex index
  lua_push (.string key)
  let is_nil := (← lua_gettable I index) = .nil
  if ← lua_isnumber I (-1) then
    let value ← lua_tointeger I (-1)
    lua_pop 1
    return value
  else
    lua_pop 1
    if is_nil then return CInt.intmax_t.wrap d.val
    else luaX_field_error I key "not an integer"

/-- `luaX_opt_integer_field` with the bounds `min` and `max`. -/
def luaX_opt_integer_field (T : CInt) (index : Int) (key : Bytes) (d : T.Val) (min max : Int) :
    LuaM H M T.Val := do
  let source ← luaX_opt_integer_field_impl I T index key d
  match luaX_integer_traits_convert T source min max with
  | some target => return target
  | none => luaX_field_error I key "out of bounds"

def field_source {T : CInt} (d : T.Val) (v : Value) : Option CInt.intmax_t.Val :=
  if (I.tonumber v).isSome then some (I.tointeger v)
  else if v = .nil then some (CInt.intmax_t.wrap d.val)
  else none

/-- The integer that a field's value is converted to, or what is wrong with it. -/
def field_integer (T : CInt) (d : T.Val) (min max : Int) (v : Value) : Except String T.Val :=
  match field_source I d v with
  | none => .error "not an integer"
  | some source =>
      match luaX_integer_traits_convert T source min max with
      | some target => .ok target
      | none => .error "out of bounds"

def opt_integer_field (T : CInt) (o : Value) (key : Bytes) (d : T.Val) (min max : Int) :
    HostM H M T.Val := do
  let v ← I.gettable o (.string key)
  match field_integer I T d min max v with
  | .ok target => return target
  | .error what => field_error I key what

theorem luaX_opt_integer_field_impl_run {T : CInt} {stk : List Value} {index : Int} {o : Value}
    (h : slot stk index = some o) (key : Bytes) (d : T.Val) :
    (luaX_opt_integer_field_impl I T index key d : LuaM H M _).run stk =
      (do
        let v ← I.gettable o (.string key)
        match field_source I d v with
        | some source => return (source, stk)
        | none => (fun a => (a, stk)) <$> field_error I key "not an integer") := by
  obtain ⟨hpos, habs⟩ := absindex_slot h
  simp only [luaX_opt_integer_field_impl, StateT.run_bind, lua_absindex_run, lua_push_run, pure_bind,
    lua_gettable_run, slot_cons hpos habs, Option.getD_some, bind_map_left, lua_isnumber_run, slot_top,
    Option.bind_some]
  congr 1
  funext v
  unfold field_source
  by_cases hn : (I.tonumber v).isSome
  · simp [hn]
  · by_cases hv : v = .nil <;> simp [hn, hv]

theorem luaX_opt_integer_field_run {T : CInt} {stk : List Value} {index : Int} {o : Value}
    (h : slot stk index = some o) (key : Bytes) (d : T.Val) (min max : Int) :
    (luaX_opt_integer_field I T index key d min max : LuaM H M _).run stk =
      (fun a => (a, stk)) <$> opt_integer_field I T o key d min max := by
  simp only [luaX_opt_integer_field, opt_integer_field, StateT.run_bind,
    luaX_opt_integer_field_impl_run I h, bind_assoc, map_bind]
  congr 1
  funext v
  unfold field_integer
  cases field_source I d v with
  | none => simp
  | some source =>
      simp only [pure_bind]
      cases luaX_integer_traits_convert T source min max <;> simp

end DromozoaFuse.Bind
