import DromozoaFuse.Base.Pieces
import DromozoaFuse.Operations.Callbacks

/-!
# Callbacks in pieces

The callbacks and the constructor of `operations`, cut between their statements: a converter, one argument, the
protected call, a look at its result are a piece each. Between two of them other threads may run.
-/

namespace DromozoaFuse.Operations

open Base Lua DromozoaFuse.Bind DromozoaFuse.Convert Fill Pieces

variable {X : Type} (I : Interp (Host X))

/-- `OpM` in pieces. -/
abbrev Cut (X α : Type) : Type := Pieces Value (List Value × World (Host X) Memory) α

/-! ## The scheme of a callback -/

def scoped_converter_cut {α : Type} (c : Converter) (body : Int → Cut X α) : Cut X α := do
  let index ← whole (c.to_table I (← whole (onHost (read c.ptr))))
  whole (onHost (record (.constructed index (slot (← whole get) index))))
  let a ← body index
  whole (onHost (record (.destructed index (slot (← whole get) index))))
  let _ ← whole (convert I c.target c.ptr index)
  return a

def with_converters_cut {α : Type} : List Converter → (Indices → Cut X α) → Cut X α
  | [], body => body []
  | c :: cs, body =>
      scoped_converter_cut I c fun index => with_converters_cut cs fun indices => body ((c, index) :: indices)

def push_args_cut (indices : Indices) : List Arg → List Nat → Cut X (List Nat)
  | [], handles => return handles
  | .push d :: args, handles => do
      whole (luaX_push d)
      push_args_cut indices args handles
  | .pushvalue c :: args, handles => do
      whole (lua_pushvalue (indices.index c))
      push_args_cut indices args handles
  | .fill_dir function buffer :: args, handles => do
      let handle ← whole (new_fill_dir function buffer)
      push_args_cut indices args (handle :: handles)
  | .timespec t :: args, handles => do
      let _ ← whole (convert_timespec I t)
      push_args_cut indices args handles

def reply_cut (nargs : Nat) (what : String) (other : OpM X (Option CInt.int.Val)) : Cut X CInt.int.Val := do
  if (← whole (lua_pcall I nargs 1)) = 0 then
    if ← whole (luaX_is_integer I (-1)) then
      return CInt.int.wrap (← whole (lua_tointeger I (-1))).val
    match ← whole other with
    | some status => return status
    | none => whole (onHost (UNEXPECTED (some (bytes what))))
  else
    if ← whole (luaX_is_integer I (-1)) then
      return CInt.int.wrap (← whole (lua_tointeger I (-1))).val
    whole (onHost (UNEXPECTED (← whole (lua_tolstring I (-1)))))
  return ENOSYS

def notify_cut (nargs : Nat) : Cut X Unit := do
  if (← whole (lua_pcall I nargs 0)) ≠ 0 then
    whole (onHost (UNEXPECTED (← whole (lua_tolstring I (-1)))))

def Finish.cut (nargs : Nat) : Finish → Cut X Returned
  | .reply o => do return .int (← reply_cut I nargs o.what (o.run I))
  | .init => do notify_cut I nargs; return .self
  | .destroy => do notify_cut I nargs; return .void

def Callback.body_cut (c : Callback) (save : Int) (indices : Indices) : Cut X Returned := do
  if ← whole (prepare I save c.name) then
    let handles ← push_args_cut I indices c.args []
    let returned ← c.finish.cut I c.nargs
    handles.forM fun handle => whole (onHost (reset handle))
    return returned
  else return c.finish.missing

def Callback.cut (c : Callback) : Cut X Returned := do
  let save ← whole lua_gettop
  let returned ← with_converters_cut I c.converters (c.body_cut I save)
  whole (lua_settop save)
  return returned

def managed_state_cut {α : Type} (body : Cut X α) : Cut X α := do
  whole (onHost (record (.opened (← whole get))))
  let a ← body
  whole (onHost (record (.closed (← whole get))))
  return a

def callback_cut (c : Callback) : Cut X Returned := managed_state_cut (c.cut I)

def operations_cut : Cut X Slots :=
  managed_state_cut do
    let save ← whole lua_gettop
    let ops : Slots := fun _ => none
    let ops ← considered.foldlM (fun ops n => whole (SET_OPERATION I ops n)) ((ops.set .init).set .destroy)
    whole (lua_settop save)
    return ops

/-! ## The pieces make up the callbacks -/

theorem scoped_converter_cuts {α : Type} (c : Converter) {body : Int → OpM X α} {cut : Int → Cut X α}
    (h : ∀ index, Cuts (cut index) (body index)) : Cuts (scoped_converter_cut I c cut) (scoped_converter I c body) := by
  unfold scoped_converter_cut scoped_converter
  refine (Cuts.whole _).bind fun that => (Cuts.whole _).bind fun index => (Cuts.whole _).bind fun stk => ?_
  refine (Cuts.whole _).bind fun _ => (h index).bind fun a => (Cuts.whole _).bind fun stk => ?_
  exact (Cuts.whole _).bind fun _ => (Cuts.whole _).bind fun _ => .pure a

theorem with_converters_cuts {α : Type} (cs : List Converter) {body : Indices → OpM X α} {cut : Indices → Cut X α}
    (h : ∀ indices, Cuts (cut indices) (body indices)) :
    Cuts (with_converters_cut I cs cut) (with_converters I cs body) := by
  induction cs generalizing body cut with
  | nil => exact h []
  | cons c cs ih => exact scoped_converter_cuts I c fun index => ih fun indices => h _

theorem push_args_cuts (indices : Indices) (args : List Arg) (handles : List Nat) :
    Cuts (push_args_cut I indices args handles) (push_args I indices args handles) := by
  induction args generalizing handles with
  | nil => exact .pure handles
  | cons arg args ih =>
      cases arg with
      | push | pushvalue | fill_dir | timespec => exact (Cuts.whole _).bind fun _ => ih _

theorem reply_cuts (nargs : Nat) (what : String) (other : OpM X (Option CInt.int.Val)) :
    Cuts (reply_cut I nargs what other) (reply I nargs what other) := by
  unfold reply_cut reply
  refine (Cuts.whole _).bind fun result => ?_
  split
  · refine (Cuts.whole _).bind fun integer => ?_
    split
    · exact (Cuts.whole _).bind fun i => .pure _
    · refine (Cuts.whole _).bind fun status => ?_
      cases status with
      | some status => exact .pure status
      | none => exact (Cuts.whole _).bind fun _ => .pure ENOSYS
  · refine (Cuts.whole _).bind fun integer => ?_
    split
    · exact (Cuts.whole _).bind fun i => .pure _
    · exact (Cuts.whole _).bind fun what => (Cuts.whole _).bind fun _ => .pure ENOSYS

theorem notify_cuts (nargs : Nat) : Cuts (notify_cut I nargs) (notify I nargs) := by
  unfold notify_cut notify
  refine (Cuts.whole _).bind fun result => ?_
  split
  · exact (Cuts.whole _).bind fun what => .whole _
  · exact .pure ()

theorem Finish.cuts (finish : Finish) (nargs : Nat) : Cuts (finish.cut I nargs) (finish.run I nargs) := by
  cases finish with
  | reply o => exact (reply_cuts I nargs o.what _).bind fun status => .pure _
  | init | destroy => exact (notify_cuts I nargs).bind fun _ => .pure _

theorem Callback.body_cuts (c : Callback) (save : Int) (indices : Indices) :
    Cuts (c.body_cut I save indices) (c.body I save indices) := by
  unfold body_cut body
  refine (Cuts.whole _).bind fun prepared => ?_
  split
  · refine (push_args_cuts I indices c.args []).bind fun handles => (c.finish.cuts I c.nargs).bind fun returned => ?_
    exact (Cuts.forM handles fun _ => .whole _).bind fun _ => .pure returned
  · exact .pure _

theorem managed_state_cuts {α : Type} {body : OpM X α} {cut : Cut X α} (h : Cuts cut body) :
    Cuts (managed_state_cut cut) (managed_state body) := by
  unfold managed_state_cut managed_state
  refine (Cuts.whole _).bind fun stk => (Cuts.whole _).bind fun _ => h.bind fun a => (Cuts.whole _).bind fun stk => ?_
  exact (Cuts.whole _).bind fun _ => .pure a

theorem callback_cuts (c : Callback) : Cuts (callback_cut I c) (callback I c) := by
  apply managed_state_cuts
  unfold Callback.cut Callback.run
  refine (Cuts.whole _).bind fun save => (with_converters_cuts I c.converters (c.body_cuts I save)).bind fun a => ?_
  exact (Cuts.whole _).bind fun _ => .pure a

theorem operations_cuts : Cuts (operations_cut I) (operations I) := by
  apply managed_state_cuts
  refine (Cuts.whole _).bind fun save => (Cuts.foldlM considered (fun _ _ => .whole _) _).bind fun ops => ?_
  exact (Cuts.whole _).bind fun _ => .pure ops

end DromozoaFuse.Operations
