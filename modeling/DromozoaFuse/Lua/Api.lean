import DromozoaFuse.Lua.World

/-!
# The C API

A program of the API runs on a stack, top first. Raising an error drops the stack: whoever catches
the error has kept what it needs. For each function an equation says what it does to the stack and
which stackless program it runs.
-/

namespace DromozoaFuse.Lua

open Base

abbrev LuaM (H M α : Type) : Type := StateT (List Value) (Prog Value (World H M)) α

/-- The value at an index: positive from the bottom, negative from the top. -/
def slot (stk : List Value) : Int → Option Value
  | .ofNat 0 => none
  | .ofNat (n + 1) => stk.reverse[n]?
  | .negSucc n => stk[n]?

theorem slot_append {stk : List Value} {i : Int} {v : Value} (hi : 0 < i) (h : slot stk i = some v)
    (xs : List Value) : slot (xs ++ stk) i = some v := by
  match i, hi with
  | .ofNat (n + 1), _ =>
      simp only [slot, List.reverse_append] at h ⊢
      rw [List.getElem?_append_left (List.getElem?_eq_some_iff.mp h).1, h]

theorem slot_cons {stk : List Value} {i : Int} {v : Value} (hi : 0 < i) (h : slot stk i = some v)
    (x : Value) : slot (x :: stk) i = some v := slot_append hi h [x]

@[simp] theorem slot_top (v : Value) (stk : List Value) : slot (v :: stk) (-1) = some v := rfl

@[simp] theorem slot_bottom (v : Value) (xs : List Value) : slot (xs ++ [v]) 1 = some v := by
  simp [slot]

@[simp] theorem slot_length (v : Value) (stk : List Value) :
    slot (v :: stk) ((stk.length : Int) + 1) = some v := by
  change slot (v :: stk) (Int.ofNat (stk.length + 1)) = some v
  simp [slot]

/-- The absolute index of an index (`lua_absindex`). -/
def absindex (stk : List Value) (i : Int) : Int := if 0 < i then i else stk.length + i + 1

theorem absindex_slot {stk : List Value} {i : Int} {v : Value} (h : slot stk i = some v) :
    0 < absindex stk i ∧ slot stk (absindex stk i) = some v := by
  match i with
  | .ofNat 0 => simp [slot] at h
  | .ofNat (n + 1) => exact ⟨by simp [absindex], by simpa [absindex] using h⟩
  | .negSucc n =>
      have hn : n < stk.length := (List.getElem?_eq_some_iff.mp h).1
      have ha : absindex stk (.negSucc n) = .ofNat (stk.length - 1 - n + 1) := by
        simp only [absindex, Int.ofNat_eq_natCast]
        rw [if_neg (by omega)]
        omega
      rw [ha]
      refine ⟨by simp only [Int.ofNat_eq_natCast]; omega, ?_⟩
      simp only [slot] at h ⊢
      rw [List.getElem?_reverse (by omega)]
      rw [← h]
      congr 1
      omega

variable {H M : Type} (I : Interp H)

/-- Run a stackless program. -/
def onHost {α : Type} (x : HostM H M α) : LuaM H M α := StateT.lift x

@[simp] theorem onHost_run {α : Type} (x : HostM H M α) (stk : List Value) :
    (onHost x : LuaM H M α).run stk = (fun a => (a, stk)) <$> x := by
  simp [onHost, StateT.run_lift]

def lua_gettop : LuaM H M Int := do return (← get).length

/-- `lua_settop` with a non-negative index. -/
def lua_settop (top : Int) : LuaM H M Unit :=
  modify fun stk =>
    let n := top.toNat
    List.replicate (n - stk.length) .nil ++ stk.drop (stk.length - n)

def lua_pop (n : Nat) : LuaM H M Unit := modify (List.drop n)

def lua_push (v : Value) : LuaM H M Unit := modify (v :: ·)

def lua_pushvalue (i : Int) : LuaM H M Unit := modify fun stk => (slot stk i).getD .nil :: stk

def lua_absindex (i : Int) : LuaM H M Int := do return absindex (← get) i

def lua_type (i : Int) : LuaM H M LuaType := do
  return ((slot (← get) i).map Value.type).getD .none

def lua_istable (i : Int) : LuaM H M Bool := do return (← lua_type i) = .table

def lua_isnil (i : Int) : LuaM H M Bool := do return (← lua_type i) = .nil

def lua_isinteger (i : Int) : LuaM H M Bool := do
  match slot (← get) i with
  | some (.number (.integer _)) => return true
  | _ => return false

def lua_isnumber (i : Int) : LuaM H M Bool := do
  return ((slot (← get) i).bind I.tonumber).isSome

def lua_tointeger (i : Int) : LuaM H M CInt.int64_t.Val := do
  return I.tointeger ((slot (← get) i).getD .nil)

/-- `lua_tonumber`: 0 where there is no number. -/
def lua_tonumber (i : Int) : LuaM H M Double := do
  return (((slot (← get) i).bind I.tonumber).map Number.toDouble).getD (.finite 0)

def setSlot (stk : List Value) (v : Value) : Int → List Value
  | .ofNat 0 => stk
  | .ofNat (n + 1) => stk.set (stk.length - 1 - n) v
  | .negSucc n => stk.set n v

/-- `lua_tolstring`, which turns a number into its text in place. -/
def lua_tolstring (i : Int) : LuaM H M (Option Bytes) := do
  match (slot (← get) i).bind I.tolstring with
  | some s => modify (setSlot · (.string s) i); return some s
  | none => return none

def lua_newtable : LuaM H M Unit := do
  let r ← onHost newtable
  lua_push (.table r)

/-- `lua_gettable`: the type of the value pushed in place of the key. -/
def lua_gettable (i : Int) : LuaM H M LuaType := do
  let stk ← get
  let v ← onHost (I.gettable ((slot stk i).getD .nil) (stk.headD .nil))
  set (v :: stk.tail)
  return v.type

def lua_settable (i : Int) : LuaM H M Unit := do
  let stk ← get
  onHost (I.settable ((slot stk i).getD .nil) (stk[1]?.getD .nil) (stk.headD .nil))
  set (stk.drop 2)

/-- `lua_concat` of strings and numbers. The programs here concatenate nothing else, so what a
metamethod would do is not modelled. -/
def lua_concat (n : Nat) : LuaM H M Unit := do
  let stk ← get
  match (stk.take n).reverse.mapM I.tolstring with
  | some texts => set (Value.string texts.flatten :: stk.drop n)
  | none => throw (.string (bytes "attempt to concatenate"))

def lua_error {α : Type} : LuaM H M α := do throw ((← get).headD .nil)

def luaL_where : LuaM H M Unit := do
  let w ← onHost get
  lua_push (.string (I.position w.heap))

def luaL_argerror {α : Type} (arg : Nat) (extramsg : Bytes) : LuaM H M α := do
  let w ← onHost get
  throw (.string (I.argerror w.heap arg extramsg))

/-- The error about an argument of the wrong type. -/
def typeerror {α : Type} (arg : Nat) (tname : String) : LuaM H M α := do
  let w ← onHost get
  luaL_argerror I arg (bytes tname ++ bytes " expected, got " ++ I.typename w.heap (slot (← get) arg))

def luaL_checklstring (arg : Nat) : LuaM H M Bytes := do
  match ← lua_tolstring I arg with
  | some s => return s
  | none => typeerror I arg "string"

def luaL_optinteger (arg : Nat) (d : CInt.int64_t.Val) : LuaM H M CInt.int64_t.Val := do
  match slot (← get) arg with
  | none => return d
  | some .nil => return d
  | some v =>
      match I.tonumber v with
      | none => typeerror I arg "number"
      | some n =>
          match n.toInteger? with
          | none => luaL_argerror I arg (bytes "number has no integer representation")
          | some i => return i

/-- The status of a protected call and what it leaves on the stack, top first: `nresults` values, or
the error value. -/
def outcome (nresults : Nat) : Except Value Value → Nat × List Value
  | .ok v => (0, List.replicate (nresults - 1) .nil ++ [v].take nresults)
  | .error e => (2, [e])

/-- `lua_pcall` without a message handler. -/
def lua_pcall (nargs nresults : Nat) : LuaM H M Nat := do
  let stk ← get
  let reply ← onHost (I.pcall (stk[nargs]?.getD .nil) (stk.take nargs).reverse)
  set ((outcome nresults reply).2 ++ stk.drop (nargs + 1))
  return (outcome nresults reply).1

/-! ## What each function does to the stack -/

section

variable (stk : List Value) (i : Int) (v k : Value)

@[simp] theorem lua_gettop_run : (lua_gettop : LuaM H M Int).run stk = pure ((stk.length : Int), stk) := rfl

theorem lua_settop_run (xs : List Value) :
    (lua_settop stk.length : LuaM H M Unit).run (xs ++ stk) = pure ((), stk) := by
  simp [lua_settop]

@[simp] theorem lua_pop_run (n : Nat) : (lua_pop n : LuaM H M Unit).run stk = pure ((), stk.drop n) := rfl

@[simp] theorem lua_push_run : (lua_push v : LuaM H M Unit).run stk = pure ((), v :: stk) := rfl

@[simp] theorem lua_pushvalue_run :
    (lua_pushvalue i : LuaM H M Unit).run stk = pure ((), (slot stk i).getD .nil :: stk) := rfl

@[simp] theorem lua_absindex_run :
    (lua_absindex i : LuaM H M Int).run stk = pure (absindex stk i, stk) := rfl

@[simp] theorem lua_type_run :
    (lua_type i : LuaM H M LuaType).run stk = pure (((slot stk i).map Value.type).getD .none, stk) := rfl

@[simp] theorem lua_istable_run :
    (lua_istable i : LuaM H M Bool).run stk =
      pure (decide (((slot stk i).map Value.type).getD .none = .table), stk) := rfl

@[simp] theorem lua_isnil_run :
    (lua_isnil i : LuaM H M Bool).run stk =
      pure (decide (((slot stk i).map Value.type).getD .none = .nil), stk) := rfl

@[simp] theorem lua_isnumber_run :
    (lua_isnumber I i : LuaM H M Bool).run stk = pure (((slot stk i).bind I.tonumber).isSome, stk) := rfl

@[simp] theorem lua_tointeger_run :
    (lua_tointeger I i : LuaM H M _).run stk = pure (I.tointeger ((slot stk i).getD .nil), stk) := rfl

@[simp] theorem lua_tonumber_run :
    (lua_tonumber I i : LuaM H M _).run stk =
      pure ((((slot stk i).bind I.tonumber).map Number.toDouble).getD (.finite 0), stk) := rfl

@[simp] theorem lua_tolstring_run :
    (lua_tolstring I (-1) : LuaM H M _).run (v :: stk) =
      pure (I.tolstring v, ((I.tolstring v).map Value.string).getD v :: stk) := by
  simp only [lua_tolstring, StateT.run_bind, StateT.run_get, pure_bind, slot_top, Option.bind_some]
  cases I.tolstring v <;> rfl

@[simp] theorem lua_newtable_run :
    (lua_newtable : LuaM H M Unit).run stk = (fun r => ((), .table r :: stk)) <$> newtable := by
  simp [lua_newtable]

@[simp] theorem lua_gettable_run :
    (lua_gettable I i : LuaM H M LuaType).run (k :: stk) =
      (fun v => (v.type, v :: stk)) <$> I.gettable ((slot (k :: stk) i).getD .nil) k := by
  simp [lua_gettable]

@[simp] theorem lua_settable_run :
    (lua_settable I i : LuaM H M Unit).run (v :: k :: stk) =
      (fun _ => ((), stk)) <$> I.settable ((slot (v :: k :: stk) i).getD .nil) k v := by
  simp [lua_settable]

@[simp] theorem luaL_where_run :
    (luaL_where I : LuaM H M Unit).run stk =
      (fun w => ((), .string (I.position w.heap) :: stk)) <$> get := by
  simp [luaL_where]

@[simp] theorem lua_error_run {α : Type} : (lua_error : LuaM H M α).run (v :: stk) = throw v := rfl

theorem lua_pcall_run (f : Value) (args : List Value) (nresults : Nat) :
    (lua_pcall I args.length nresults : LuaM H M Nat).run (args.reverse ++ f :: stk) =
      (fun reply => ((outcome nresults reply).1, (outcome nresults reply).2 ++ stk)) <$>
        I.pcall f args := by
  have hargs : (args.reverse ++ f :: stk).take args.length = args.reverse :=
    List.take_left' (by simp)
  have hrest : (args.reverse ++ f :: stk).drop (args.length + 1) = stk := by
    rw [← List.drop_drop, List.drop_left' (by simp)]
    rfl
  simp [lua_pcall, hargs, hrest]

end

theorem return_ok {α β : Type} {x : LuaM H M α} {f : α → β} {stk stk' : List Value} {b : β} {w w' : World H M}
    (h : ((do return f (← x)).run stk).exec w = (.ok (b, stk'), w')) :
    ∃ a, (x.run stk).exec w = (.ok (a, stk'), w') ∧ f a = b := by
  rw [StateT.run_bind] at h
  obtain ⟨⟨a, _⟩, _, hx, hreturn⟩ := Prog.exec_bind_ok h
  cases hreturn
  exact ⟨a, hx, rfl⟩

theorem return_of_ok {α β : Type} {x : LuaM H M α} (f : α → β) {stk stk' : List Value} {a : α} {w w' : World H M}
    (h : (x.run stk).exec w = (.ok (a, stk'), w')) :
    ((do return f (← x)).run stk).exec w = (.ok (f a, stk'), w') := by
  rw [StateT.run_bind, Prog.exec_bind_of_ok h]
  rfl

theorem typeerror_exec {α : Type} (arg : Nat) (tname : String) (stk : List Value) (w : World H M) :
    ∃ e, ((typeerror I arg tname : LuaM H M α).run stk).exec w = (.error e, w) := ⟨_, rfl⟩

theorem luaL_checklstring_of_some {arg : Nat} {stk : List Value} {s : Bytes}
    (h : (slot stk arg).bind I.tolstring = some s) :
    (luaL_checklstring I arg : LuaM H M Bytes).run stk = pure (s, setSlot stk (.string s) arg) := by
  simp [luaL_checklstring, lua_tolstring, h]

theorem luaL_checklstring_of_none {arg : Nat} {stk : List Value} (h : (slot stk arg).bind I.tolstring = none) :
    (luaL_checklstring I arg : LuaM H M Bytes).run stk = (typeerror I arg "string").run stk := by
  simp [luaL_checklstring, lua_tolstring, h]

theorem luaL_optinteger_of_nil {arg : Nat} {stk : List Value} (h : (slot stk arg).getD .nil = .nil)
    (d : CInt.int64_t.Val) : (luaL_optinteger I arg d : LuaM H M _).run stk = pure (d, stk) := by
  cases hv : slot stk arg with
  | none => simp [luaL_optinteger, hv]
  | some v =>
      obtain rfl : v = .nil := by simpa [hv] using h
      simp [luaL_optinteger, hv]

theorem luaL_optinteger_of_value {arg : Nat} {stk : List Value} {v : Value} (h : slot stk arg = some v)
    (hnil : v ≠ .nil) (d : CInt.int64_t.Val) (w : World H M) :
    (∃ i, (I.tonumber v).bind Number.toInteger? = some i ∧
      ((luaL_optinteger I arg d).run stk).exec w = (.ok (i, stk), w)) ∨
    ((I.tonumber v).bind Number.toInteger? = none ∧
      ∃ e, ((luaL_optinteger I arg d).run stk).exec w = (.error e, w)) := by
  have hrun : (luaL_optinteger I arg d : LuaM H M _).run stk =
      ((I.tonumber v).elim (typeerror I arg "number") fun n =>
        n.toInteger?.elim (luaL_argerror I arg (bytes "number has no integer representation")) pure).run stk := by
    simp only [luaL_optinteger, StateT.run_bind, StateT.run_get, pure_bind, h]
    cases v with
    | nil => exact absurd rfl hnil
    | _ => cases I.tonumber _ with
      | none => rfl
      | some n =>
          dsimp only [Option.elim_some]
          cases n.toInteger? <;> rfl
  rw [hrun]
  cases I.tonumber v with
  | none => exact Or.inr ⟨rfl, _, rfl⟩
  | some n =>
      simp only [Option.bind_some, Option.elim_some]
      cases n.toInteger? with
      | none => exact Or.inr ⟨rfl, _, rfl⟩
      | some i => exact Or.inl ⟨i, rfl, rfl⟩

end DromozoaFuse.Lua
