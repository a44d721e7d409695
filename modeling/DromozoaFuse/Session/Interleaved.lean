import DromozoaFuse.Operations.Pieces
import DromozoaFuse.Session.Session

/-!
# Sessions piece by piece

The callbacks of the threads are cut into pieces, and between any two of them any other thread may make a step. All
threads have all states at all times: whoever has started on a state runs its next piece on what it finds there, and no
lock is asked. Only the state manager can keep two callbacks from running on the same state.
-/

namespace DromozoaFuse.Session

open Base Lua Operations Fill Pieces

/-- What libfuse gets from a callback, and nothing from the constructor of `operations`. -/
def Task.returning {X : Type} (I : Interp (Host X)) : Task → OpM X (Option Returned)
  | .operations => do
      let _ ← Operations.operations I
      return none
  | .callback inv => do return some (← Operations.callback I inv.callback)

/-- A cut between all statements. -/
def Task.cut {X : Type} (I : Interp (Host X)) : Task → Cut X (Option Returned)
  | .operations => do
      let _ ← operations_cut I
      return none
  | .callback inv => do return some (← callback_cut I inv.callback)

theorem Task.cuts {X : Type} (I : Interp (Host X)) (task : Task) : Cuts (task.cut I) (task.returning I) := by
  cases task with
  | operations => exact (operations_cuts I).bind fun _ => .pure none
  | callback inv => exact (callback_cuts I inv.callback).bind fun returned => .pure (some returned)

/-- A session records nothing of what is returned. -/
theorem Task.program_of_returning {task : Task} {stk stk' : List Value} {w w' : World (Host X) Memory}
    {returned : Option Returned} (h : ((task.returning I).run stk).exec w = (.ok (returned, stk'), w')) :
    ((task.program I).run stk).exec w = (.ok ((), stk'), w') := by
  cases task with
  | operations =>
      obtain ⟨_, hrun, -⟩ := return_ok h
      exact return_of_ok (fun _ => ()) hrun
  | callback inv =>
      obtain ⟨_, hrun, -⟩ := return_ok h
      exact return_of_ok (fun _ => ()) hrun

namespace Interleaved

/-- A callback that has started: what is left of it, the memory that libfuse has given it, what it has recorded, and how
many names had been filled in on its state before it. -/
structure Started (X : Type) where
  rest : Cut X (Option Returned)
  mem : Memory
  events : List Event
  filled : Nat

variable {T : Type} {M : StateManager T} {X : Type}

/-- A thread whose callback has started stays `ready` until it ends. -/
structure Config (M : StateManager T) (X : Type) where
  manager : M.Config
  lua : Nat → LuaState X
  job : T → Job X
  log : T → List Note
  started : T → Option (Started X)

/-- As in a session, but a callback that has started makes one piece after the other. -/
inductive Act (M : StateManager T) (X : Type)
  | call (t : T) (task : Task) (m : Memory)
  | manage (a : M.Act)
  | start (t : T)
  | advance (t : T)
  | finish (t : T)
  | script (state : Nat) (heap : Heap (Host X))

/-- The states are as they are in a session. -/
def Config.init (M : StateManager T) (roots : Nat → Value) (heaps : Nat → Heap (Host X)) : Config M X where
  manager := M.init
  lua := fun s => ⟨[roots s], heaps s⟩
  job := fun _ => .idle
  log := fun _ => []
  started := fun _ => none

/-- The session that stands where no callback has started, with the states as they are given. -/
def Config.session (c : Config M X) (lua : Nat → LuaState X) : Session.Config M X where
  manager := c.manager
  lua := fun s => some (lua s)
  job := c.job
  log := c.log

def Config.follow (c : Config M X) (d : Session.Config M X) : Config M X :=
  { c with manager := d.manager, job := d.job, log := d.log }

/-- The state that the callback of a thread has started on. -/
def Config.on (c : Config M X) (t : T) : Option Nat :=
  match c.job t, c.started t with
  | .ready s _ _, some _ => some s
  | _, _ => none

/-- What the next piece of a callback runs on. -/
def Config.found (c : Config M X) (s : Nat) (b : Started X) : List Value × World (Host X) Memory :=
  ((c.lua s).stack, ⟨(c.lua s).heap, b.mem, b.events⟩)

variable [DecidableEq T]

def Config.setStarted (c : Config M X) (t : T) (b : Option (Started X)) : Config M X :=
  { c with started := Function.update c.started t b }

def Config.setLua (c : Config M X) (s : Nat) (l : LuaState X) : Config M X :=
  { c with lua := Function.update c.lua s l }

/-- A piece has left this, and `rest` is to follow. -/
def Config.advanced (c : Config M X) (t : T) (s : Nat) (b : Started X) (rest : Cut X (Option Returned))
    (p : List Value × World (Host X) Memory) : Config M X :=
  (c.setLua s ⟨p.1, p.2.heap⟩).setStarted t (some { b with rest, mem := p.2.mem, events := p.2.trace })

variable [Fintype T]

/-- Scripts that run besides the callbacks leave a state alone that a callback has started on. -/
def step (cut : Task → Cut X (Option Returned)) (c : Config M X) : Act M X → Option (Config M X)
  | .call t task m =>
      match c.job t with
      | .idle => some (c.follow ((c.session c.lua).move t (.opening task m) [.called task]))
      | _ => none
  | .manage a =>
      (M.step c.manager a).bind fun manager => ((c.session c.lua).managed a manager).map c.follow
  | .start t =>
      match c.job t, c.started t with
      | .ready s task m, none =>
          some (c.setStarted t (some ⟨cut task, m, [], (c.lua s).heap.host.filled.length⟩))
      | _, _ => none
  | .advance t =>
      match c.job t, c.started t with
      | .ready s _ _, some b =>
          match b.rest with
          | .piece run rest => some (c.advanced t s b (rest (c.found s b)) (run (c.found s b)))
          | .done _ => none
      | _, _ => none
  | .finish t =>
      match c.job t, c.started t with
      | .ready s _ _, some b =>
          match b.rest with
          | .done (.ok _) =>
              some ((c.setStarted t none).follow ((c.session c.lua).move t (.closing s) [.ran b.events]))
          | _ => none
      | _, _ => none
  | .script s heap => if ∀ t, c.on t ≠ some s then some (c.setLua s { c.lua s with heap }) else none

end Interleaved

end DromozoaFuse.Session
