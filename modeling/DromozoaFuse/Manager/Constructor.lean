import DromozoaFuse.Base.Prog
import DromozoaFuse.Lua.Value
import DromozoaFuse.Manager.Pool

/-!
# The constructor of `state_manager_pool`

`construct()`, the loop that fills the idle list, and the destructor. C++ runs the destructor of an object
only if its constructor has returned, and a `std::list` of pointers closes nothing.
-/

namespace DromozoaFuse.Manager

open Base Lua

/-- What `construct()` throws. A message that is no string throws the other exception. -/
inductive Exception
  | runtime_error (what : Bytes)
  | logic_error
  deriving DecidableEq

/-- The Lua states made so far, by number, and the calls of `lua_close`, the last one first. -/
structure States where
  created : Nat
  closed : List Nat
  deriving DecidableEq

def States.none : States := ⟨0, []⟩

abbrev Building (α : Type) : Type := Prog Exception States α

/-- How one `construct()` fares: whether `luaL_newstate` has a state for it, what `luaL_loadbuffer` returns,
and what the chunk raises in `lua_pcall`. -/
structure Attempt where
  newstate : Bool
  loadbuffer : Int
  pcall : Except (Option Bytes) Unit

def luaL_newstate (a : Attempt) : Building (Option Nat) := do
  if a.newstate then
    let l ← get
    set { l with created := l.created + 1 }
    return some l.created
  else return .none

def lua_close (state : Nat) : Building Unit := modify fun l => { l with closed := state :: l.closed }

def scoped_state_dtor : Option Nat → Building Unit
  | some state => lua_close state
  | .none => return ()

/-- A `scoped_state` around `body`, which returns what it leaves in it. An exception finds the state in it. -/
def scoped_state {α : Type} (state : Option Nat) (body : Building (α × Option Nat)) : Building α := do
  let (a, rest) ← tryCatch body fun e => do
    scoped_state_dtor state
    throw e
  scoped_state_dtor rest
  return a

/-- `construct()` from `luaL_openlibs` on. It releases the state that it returns. -/
def load (a : Attempt) (L : Nat) : Building (Nat × Option Nat) := do
  if a.loadbuffer = 0 then
    match a.pcall with
    | .ok () => return (L, .none)
    | .error (some what) => throw (.runtime_error (cstring what))
    | .error .none => throw .logic_error
  else throw (.runtime_error (bytes s!"could not luaL_loadbuffer: error number {a.loadbuffer}"))

def construct (a : Attempt) : Building Nat := do
  let state ← luaL_newstate a
  scoped_state state do
    match state with
    | some L => load a L
    | .none => throw (.runtime_error (bytes "could not luaL_newstate"))

/-- One round of the loop. -/
def push_idle (attempts : Nat → Attempt) (idle_states : List Nat) (i : Nat) : Building (List Nat) := do
  let L ← construct (attempts i)
  scoped_state (some L) do return (idle_states ++ [L], .none)

/-- The constructor, and so `impl_pool`: `luaX_new` passes an exception on. -/
def state_manager_pool (p : PoolParams) (attempts : Nat → Attempt) : Building Pool := do
  let idle_states ← (List.range p.start_states).foldlM (push_idle attempts) []
  return ⟨0, idle_states⟩

def state_manager_pool_dtor (s : Pool) : Building Unit :=
  s.idle_states.forM fun front => scoped_state (some front) do return ((), some front)

/-! ## One round -/

/-- `construct()` returns. -/
def Attempt.Succeeds (a : Attempt) : Prop := a.newstate = true ∧ a.loadbuffer = 0 ∧ a.pcall = .ok ()

theorem exec_tryCatch {α : Type} (x : Building α) (f : Exception → Building α) (l : States) :
    (tryCatch x f).exec l = match x.exec l with
      | (.ok a, l') => (.ok a, l')
      | (.error e, l') => (f e).exec l' := by
  change Prog.exec (ExceptT.tryCatch x f) l = _
  unfold Prog.exec ExceptT.tryCatch ExceptT.mk
  simp only [ExceptT.run, StateT.run_bind]
  rcases StateT.run x l with ⟨e | a, l'⟩ <;> rfl

theorem scoped_state_exec_ok {α : Type} {state rest : Option Nat} {body : Building (α × Option Nat)}
    {a : α} {l l' : States} (h : body.exec l = (.ok (a, rest), l')) :
    (scoped_state state body).exec l = (.ok a, ((scoped_state_dtor rest).exec l').2) := by
  have hbody : (tryCatch body fun e => do scoped_state_dtor state; throw e).exec l = (.ok (a, rest), l') := by
    rw [exec_tryCatch, h]
  rw [scoped_state, Prog.exec_bind_of_ok hbody]
  cases rest <;> rfl

theorem scoped_state_exec_error {α : Type} {state : Option Nat} {body : Building (α × Option Nat)}
    {e : Exception} {l l' : States} (h : body.exec l = (.error e, l')) :
    (scoped_state state body).exec l = (.error e, ((scoped_state_dtor state).exec l').2) := by
  have hbody : (tryCatch body fun e => do scoped_state_dtor state; throw e).exec l =
      (.error e, ((scoped_state_dtor state).exec l').2) := by
    rw [exec_tryCatch, h]
    cases state <;> rfl
  rw [scoped_state, Prog.exec_bind_of_error hbody]

theorem load_exec {a : Attempt} (hload : a.loadbuffer = 0) (hpcall : a.pcall = .ok ()) (L : Nat) (l : States) :
    (load a L).exec l = (.ok (L, .none), l) := by
  rw [load, if_pos hload, hpcall]
  rfl

theorem load_throws {a : Attempt} (h : ¬ (a.loadbuffer = 0 ∧ a.pcall = .ok ())) (L : Nat) (l : States) :
    ∃ e, (load a L).exec l = (.error e, l) := by
  by_cases hload : a.loadbuffer = 0
  · rw [load, if_pos hload]
    rcases hpcall : a.pcall with (_ | what) | ⟨⟨⟩⟩
    · exact ⟨_, rfl⟩
    · exact ⟨_, rfl⟩
    · exact absurd ⟨hload, hpcall⟩ h
  · rw [load, if_neg hload]
    exact ⟨_, rfl⟩

theorem construct_exec {a : Attempt} (h : a.Succeeds) (l : States) :
    (construct a).exec l = (.ok l.created, { l with created := l.created + 1 }) := by
  obtain ⟨hnew, hload, hpcall⟩ := h
  have hnewstate : (luaL_newstate a).exec l = (.ok (some l.created), { l with created := l.created + 1 }) := by
    rw [luaL_newstate, hnew]
    rfl
  rw [construct, Prog.exec_bind_of_ok hnewstate]
  exact scoped_state_exec_ok (load_exec hload hpcall _ _)

/-- A `construct()` that throws has closed what it had made. -/
theorem construct_throws {a : Attempt} (h : ¬ a.Succeeds) (l : States) :
    ∃ e l', (construct a).exec l = (.error e, l') ∧ ∀ s < l.created, l'.closed.count s = l.closed.count s := by
  by_cases hnew : a.newstate = true
  · have hnewstate : (luaL_newstate a).exec l = (.ok (some l.created), { l with created := l.created + 1 }) := by
      rw [luaL_newstate, hnew]
      rfl
    obtain ⟨e, hload⟩ := load_throws (fun hok => h ⟨hnew, hok⟩) l.created ⟨l.created + 1, l.closed⟩
    rw [construct, Prog.exec_bind_of_ok hnewstate]
    refine ⟨e, _, scoped_state_exec_error hload, fun s hs => ?_⟩
    exact List.count_cons_of_ne (by omega)
  · have hnewstate : (luaL_newstate a).exec l = (.ok .none, l) := by
      rw [luaL_newstate, if_neg hnew]
      rfl
    rw [construct, Prog.exec_bind_of_ok hnewstate]
    exact ⟨_, _, scoped_state_exec_error rfl, fun _ _ => rfl⟩

/-! ## The loop and the destructor -/

theorem push_idle_exec {attempts : Nat → Attempt} {i : Nat} (h : (attempts i).Succeeds) (idle : List Nat)
    (l : States) : (push_idle attempts idle i).exec l =
      (.ok (idle ++ [l.created]), { l with created := l.created + 1 }) := by
  rw [push_idle, Prog.exec_bind_of_ok (construct_exec h l)]
  exact scoped_state_exec_ok rfl

theorem fold_push_idle_exec {attempts : Nat → Attempt} {n : Nat} (h : ∀ i < n, (attempts i).Succeeds) :
    ((List.range n).foldlM (push_idle attempts) []).exec .none = (.ok (List.range n), ⟨n, []⟩) := by
  induction n with
  | zero => rfl
  | succ n ih =>
      rw [List.range_succ, List.foldlM_append, Prog.exec_bind_of_ok (ih fun i hi => h i (by omega))]
      simpa using push_idle_exec (h n (by omega)) (List.range n) ⟨n, []⟩

/-- After the first `construct()` that throws, nothing of the rounds before it has been closed. -/
theorem fold_push_idle_throws {attempts : Nat → Attempt} {i n : Nat} (hin : i < n)
    (h : ∀ j < i, (attempts j).Succeeds) (hi : ¬ (attempts i).Succeeds) :
    ∃ e l, ((List.range n).foldlM (push_idle attempts) []).exec .none = (.error e, l) ∧
      ∀ s < i, l.closed.count s = 0 := by
  obtain ⟨e, l, hthrows, hclosed⟩ := construct_throws hi ⟨i, []⟩
  obtain ⟨m, rfl⟩ := Nat.exists_eq_add_of_lt hin
  have hround : (push_idle attempts (List.range i) i).exec ⟨i, []⟩ = (.error e, l) := by
    rw [push_idle, Prog.exec_bind_of_error hthrows]
  have hrange : List.range (i + m + 1) = List.range i ++ (i :: (List.range m).map (i + 1 + ·)) := by
    rw [show i + m + 1 = i + (m + 1) by omega, List.range_add, List.range_succ_eq_map]
    simp [Function.comp_def, Nat.add_comm, Nat.add_left_comm]
  refine ⟨e, l, ?_, fun s hs => (hclosed s hs).trans rfl⟩
  rw [hrange, List.foldlM_append, Prog.exec_bind_of_ok (fold_push_idle_exec h), List.foldlM_cons,
    Prog.exec_bind_of_error hround]

theorem state_manager_pool_dtor_exec (s : Pool) (l : States) :
    (state_manager_pool_dtor s).exec l = (.ok (), { l with closed := s.idle_states.reverse ++ l.closed }) := by
  obtain ⟨active, idle⟩ := s
  unfold state_manager_pool_dtor
  induction idle generalizing l with
  | nil => rfl
  | cons front rest ih =>
      have hfirst : (scoped_state (some front) (do return ((), some front)) : Building Unit).exec l =
          (.ok (), { l with closed := front :: l.closed }) := scoped_state_exec_ok rfl
      have hsplit : ((front :: rest).forM fun front => scoped_state (some front) do return ((), some front) :
          Building Unit) = (do
            scoped_state (some front) do return ((), some front)
            rest.forM fun front => scoped_state (some front) do return ((), some front)) := rfl
      dsimp only at ih ⊢
      rw [hsplit, Prog.exec_bind_of_ok hfirst, ih]
      simp

end DromozoaFuse.Manager
