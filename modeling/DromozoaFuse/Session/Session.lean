import DromozoaFuse.Operations.Callbacks
import DromozoaFuse.Session.StateManager

/-!
# Sessions

Any number of threads of libfuse run callbacks on the states of a state manager: the constructor of
`operations` and the callbacks themselves. Between getting its state and giving it back a callback runs
on that state alone, while others run on other states, and the manager makes its steps in between. A
callback that raises an error does not come back, and a session has none.
-/

namespace DromozoaFuse.Session

open Base Lua Operations Fill

structure LuaState (X : Type) where
  stack : List Value
  heap : Heap (Host X)

inductive Task
  | operations
  | callback (inv : Invocation)

def Task.program {X : Type} (I : Interp (Host X)) : Task → OpM X Unit
  | .operations => do let _ ← Operations.operations I
  | .callback inv => do let _ ← Operations.callback I inv.callback

/-- Where a thread stands. `leaving` is the end of a `close()` that has taken the state back. -/
inductive Job (X : Type)
  | idle
  | opening (task : Task) (m : Memory)
  | ready (state : Nat) (task : Task) (m : Memory)
  | running (state : Nat) (after : LuaState X) (events : List Event)
  | closing (state : Nat)
  | leaving

/-- What a thread has done: it was called, `open()` threw or handed out a state with a stack, the callback
ran, and `close()` took the state back. -/
inductive Note
  | called (task : Task)
  | failed
  | opened (state : Nat) (stack : Option (List Value))
  | ran (events : List Event)
  | closed (state : Nat)

variable {T : Type} {M : StateManager T} {X : Type}

/-- `lua` has the states that no callback runs on. -/
structure Config (M : StateManager T) (X : Type) where
  manager : M.Config
  lua : Nat → Option (LuaState X)
  job : T → Job X
  log : T → List Note

/-- A thread is called, the manager makes a step, a callback gets its state and starts, it ends, or scripts
run besides the callbacks. -/
inductive Act (M : StateManager T) (X : Type)
  | call (t : T) (task : Task) (m : Memory)
  | manage (a : M.Act)
  | start (t : T)
  | finish (t : T)
  | script (state : Nat) (heap : Heap (Host X))

/-- `roots` has the operations value that each state is created with, and no state has anything else on its stack. For
a state of the pool it is the one result that `construct()` asks the chunk for, with `lua_pcall` on the stack of a new
state, and for the one state the argument that `impl_main` moves to the empty stack of its new thread. -/
def Config.init (M : StateManager T) (roots : Nat → Value) (heaps : Nat → Heap (Host X)) : Config M X where
  manager := M.init
  lua := fun s => some ⟨[roots s], heaps s⟩
  job := fun _ => .idle
  log := fun _ => []

variable [DecidableEq T]

def Config.move (c : Config M X) (t : T) (job : Job X) (notes : List Note) : Config M X :=
  { c with job := Function.update c.job t job, log := Function.update c.log t (c.log t ++ notes) }

def Config.setLua (c : Config M X) (s : Nat) (l : Option (LuaState X)) : Config M X :=
  { c with lua := Function.update c.lua s l }

/-- The manager has made a step: `managed_state`'s constructor gets a state or an exception, and its
destructor gives the state back. -/
def Config.managed (c : Config M X) (a : M.Act) (manager : M.Config) : Option (Config M X) :=
  let t := M.caller a
  let c := { c with manager }
  let done := if M.out manager t then Job.idle else .leaving
  match c.job t, M.closes a with
  | .opening task m, false =>
      match M.held manager t with
      | some s => some (c.move t (.ready s task m) [.opened s ((c.lua s).map LuaState.stack)])
      | none => some (if M.out manager t then c.move t .idle [.failed] else c)
  | .closing s, true => some (c.move t done [.closed s])
  | .leaving, true => some (c.move t done [])
  | _, _ => none

/-- The callback that a thread starts on a state, up to its end. -/
def Config.started (I : Interp (Host X)) (c : Config M X) (t : T) (s : Nat) (task : Task) (m : Memory) :
    Option (Config M X) :=
  match c.lua s with
  | none => none
  | some l =>
      match ((task.program I).run l.stack).exec ⟨l.heap, m, []⟩ with
      | (.ok (_, stack), w) => some ((c.setLua s none).move t (.running s ⟨stack, w.heap⟩ w.trace) [])
      | (.error _, _) => none

def step (I : Interp (Host X)) (c : Config M X) : Act M X → Option (Config M X)
  | .call t task m =>
      match c.job t with
      | .idle => some (c.move t (.opening task m) [.called task])
      | _ => none
  | .manage a => (M.step c.manager a).bind (c.managed a)
  | .start t =>
      match c.job t with
      | .ready s task m => c.started I t s task m
      | _ => none
  | .finish t =>
      match c.job t with
      | .running s after events => some ((c.setLua s (some after)).move t (.closing s) [.ran events])
      | _ => none
  | .script s heap => (c.lua s).map fun l => c.setLua s (some { l with heap })

end DromozoaFuse.Session
