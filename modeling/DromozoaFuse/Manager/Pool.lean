import DromozoaFuse.Base.Run
import DromozoaFuse.Base.Threads

/-!
# `state_manager_pool`

The members guarded by `mutex_`, the critical sections of `open()` and `close()`, and the transition
system of any number of callers. A step is one critical section, from taking the mutex to releasing
it or to waiting on `condition_`, or one thing a caller does outside of the mutex: `construct()`,
which may throw, and the `lua_close` of a discarded state. A state is named by its construction
number, so no two constructions share a name.
-/

namespace DromozoaFuse.Manager

open Base

def size_inc (n : Nat) : Nat := (n + 1) % 2 ^ 64

def size_dec (n : Nat) : Nat := (n + 2 ^ 64 - 1) % 2 ^ 64

theorem size_inc_eq {n : Nat} (h : n + 1 < 2 ^ 64) : size_inc n = n + 1 := Nat.mod_eq_of_lt h

theorem size_dec_eq {n : Nat} (h₀ : 0 < n) (h : n < 2 ^ 64) : size_dec n = n - 1 := by
  unfold size_dec
  rw [show n + 2 ^ 64 - 1 = n - 1 + 2 ^ 64 by omega, Nat.add_mod_right, Nat.mod_eq_of_lt (by omega)]

/-- The sizes `impl_pool` hands to the constructor, each a `size_t`. -/
structure PoolParams where
  start_states : Nat
  max_states : Nat
  max_idle_states : Nat
  start_lt : start_states < 2 ^ 64
  max_lt : max_states < 2 ^ 64
  max_idle_lt : max_idle_states < 2 ^ 64

/-- The members `active_states_` and `idle_states_`. -/
structure Pool where
  active_states : Nat
  idle_states : List Nat
  deriving DecidableEq

variable (p : PoolParams)

/-- `idle_states_.empty() && active_states_ >= max_states_` -/
def Pool.waits (s : Pool) : Prop := s.idle_states = [] ∧ p.max_states ≤ s.active_states

instance (s : Pool) : Decidable (s.waits p) := inferInstanceAs (Decidable (_ ∧ _))

/-- How the critical section of `open()` ends. -/
inductive Opened
  | wait
  | idle (state : Nat)
  | construct
  deriving DecidableEq

/-- The critical section of `open()`. -/
def Pool.open (s : Pool) : Opened × Pool :=
  if s.waits p then (.wait, s)
  else
    let active := size_inc s.active_states
    match s.idle_states with
    | front :: rest => (.idle front, ⟨active, rest⟩)
    | [] => (.construct, ⟨active, []⟩)

/-- The critical section of `close()`: whether `state` was put back. It does not signal `condition_`. -/
def Pool.close (s : Pool) (state : Nat) : Bool × Pool :=
  let active := size_dec s.active_states
  if s.idle_states.length < p.max_idle_states then (true, ⟨active, s.idle_states ++ [state]⟩)
  else (false, ⟨active, s.idle_states⟩)

/-- What a caller is doing. `discarding` is the end of a `close()` that found the idle list full:
the mutex is released and `~scoped_state` has not run yet. -/
inductive Phase
  | out
  | waiting (w : Wait)
  | constructing
  | holding (state : Nat)
  | discarding (state : Nat)
  deriving DecidableEq, Repr

/-- A configuration in which nobody is inside the critical section. `created` and `closed` record
the constructions that succeeded and the calls of `lua_close`. -/
structure Config (T : Type*) where
  pool : Pool
  phase : T → Phase
  created : Nat
  closed : List Nat

inductive Act (T : Type*)
  | open (t : T)
  | wake (t : T)
  | resume (t : T)
  | construct (t : T)
  | throw (t : T)
  | close (t : T)
  | lua_close (t : T)
  deriving DecidableEq, Repr

/-- The pool the constructor leaves behind when no `construct()` throws. -/
def Config.init {T : Type*} : Config T where
  pool := ⟨0, List.range p.start_states⟩
  phase := fun _ => .out
  created := p.start_states
  closed := []

section

variable {T : Type*} [DecidableEq T]

def Config.move (c : Config T) (t : T) (ph : Phase) : Config T :=
  { c with phase := Function.update c.phase t ph }

/-- `open()` from the point where it has the mutex. -/
def Config.enter (c : Config T) (t : T) : Config T :=
  match c.pool.open p with
  | (.wait, _) => c.move t (.waiting .parked)
  | (.idle state, pool) => { c with pool }.move t (.holding state)
  | (.construct, pool) => { c with pool }.move t .constructing

def step (c : Config T) : Act T → Option (Config T)
  | .open t => if c.phase t = .out then some (c.enter p t) else none
  | .wake t => if c.phase t = .waiting .parked then some (c.move t (.waiting .spurious)) else none
  | .resume t =>
      if c.phase t = .waiting .signalled ∨ c.phase t = .waiting .spurious then some (c.enter p t)
      else none
  | .construct t =>
      if c.phase t = .constructing then
        some ({ c with created := c.created + 1 }.move t (.holding c.created))
      else none
  | .throw t => if c.phase t = .constructing then some (c.move t .out) else none
  | .close t =>
      match c.phase t with
      | .holding state =>
          match c.pool.close p state with
          | (true, pool) => some ({ c with pool }.move t .out)
          | (false, pool) => some ({ c with pool }.move t (.discarding state))
      | _ => none
  | .lua_close t =>
      match c.phase t with
      | .discarding state => some ({ c with closed := state :: c.closed }.move t .out)
      | _ => none

end

/-! ## Counting callers -/

@[simp] def Phase.waiting? : Phase → Option Wait
  | .waiting w => some w
  | _ => none

@[simp] def Phase.isHolding : Phase → Nat
  | .holding _ => 1
  | _ => 0

@[simp] def Phase.isConstructing : Phase → Nat
  | .constructing => 1
  | _ => 0

@[simp] def Phase.holds (state : Nat) : Phase → Nat
  | .holding s => if s = state then 1 else 0
  | _ => 0

@[simp] def Phase.discards (state : Nat) : Phase → Nat
  | .discarding s => if s = state then 1 else 0
  | _ => 0

section

variable {T : Type*} [Fintype T]

/-- The states handed out and not yet closed. -/
def Config.held (c : Config T) : Nat := tally Phase.isHolding c.phase

/-- The calls of `construct()` in flight. -/
def Config.constructing (c : Config T) : Nat := tally Phase.isConstructing c.phase

/-- The idle list, the holders, the discarding closers and the `lua_close` calls that have `state`. -/
def Config.owners (c : Config T) (state : Nat) : Nat :=
  c.pool.idle_states.count state + tally (Phase.holds state) c.phase +
    tally (Phase.discards state) c.phase + c.closed.count state

end

def Config.waiting {T : Type*} (c : Config T) (t : T) : Option Wait := (c.phase t).waiting?

end DromozoaFuse.Manager
