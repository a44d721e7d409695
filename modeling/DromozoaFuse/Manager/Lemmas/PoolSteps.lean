import DromozoaFuse.Manager.Pool

/-!
# What one step of the pool can do

`Trans` lists every way a configuration can change, with the guard of the branch taken. The invariants
are proved from it and never look into `step`.
-/

namespace DromozoaFuse.Manager

open Base

variable {T : Type*} [DecidableEq T] {p : PoolParams}

/-- The callers that may take the mutex for `open()`: those calling it and those woken up inside it. -/
def Phase.MayEnter (ph : Phase) : Prop :=
  ph = .out ∨ ph = .waiting .signalled ∨ ph = .waiting .spurious

/-- The label of a passage through the critical section of `open()`. -/
def Act.Enters (a : Act T) (t : T) : Prop := a = .open t ∨ a = .resume t

/-- Caller `t` changed its phase; the rest of the configuration afterwards. -/
structure Moves (c c' : Config T) (t : T) (ph : Phase) (pool : Pool) (created : Nat)
    (closed : List Nat) : Prop where
  phase : c'.phase = Function.update c.phase t ph
  pool : c'.pool = pool
  created : c'.created = created
  closed : c'.closed = closed

theorem moves_move (c : Config T) (t : T) (ph : Phase) (pool : Pool) (created : Nat)
    (closed : List Nat) :
    Moves c (Config.move ⟨pool, c.phase, created, closed⟩ t ph) t ph pool created closed :=
  ⟨rfl, rfl, rfl, rfl⟩

inductive Trans (p : PoolParams) (c c' : Config T) : Act T → Prop
  | park {a t} : a.Enters t → (c.phase t).MayEnter → c.pool.waits p →
      Moves c c' t (.waiting .parked) c.pool c.created c.closed → Trans p c c' a
  | take {a t front rest} : a.Enters t → (c.phase t).MayEnter → c.pool.idle_states = front :: rest →
      Moves c c' t (.holding front) ⟨size_inc c.pool.active_states, rest⟩ c.created c.closed →
      Trans p c c' a
  | begin {a t} : a.Enters t → (c.phase t).MayEnter → c.pool.idle_states = [] →
      c.pool.active_states < p.max_states →
      Moves c c' t .constructing ⟨size_inc c.pool.active_states, []⟩ c.created c.closed →
      Trans p c c' a
  | wake {t} : c.phase t = .waiting .parked →
      Moves c c' t (.waiting .spurious) c.pool c.created c.closed → Trans p c c' (.wake t)
  | construct {t} : c.phase t = .constructing →
      Moves c c' t (.holding c.created) c.pool (c.created + 1) c.closed → Trans p c c' (.construct t)
  | throw {t} : c.phase t = .constructing →
      Moves c c' t .out c.pool c.created c.closed → Trans p c c' (.throw t)
  | keep {t state} : c.phase t = .holding state →
      c.pool.idle_states.length < p.max_idle_states →
      Moves c c' t .out ⟨size_dec c.pool.active_states, c.pool.idle_states ++ [state]⟩
        c.created c.closed → Trans p c c' (.close t)
  | discard {t state} : c.phase t = .holding state →
      p.max_idle_states ≤ c.pool.idle_states.length →
      Moves c c' t (.discarding state)
        ⟨size_dec c.pool.active_states, c.pool.idle_states⟩ c.created c.closed →
      Trans p c c' (.close t)
  | lua_close {t state} : c.phase t = .discarding state →
      Moves c c' t .out c.pool c.created (state :: c.closed) → Trans p c c' (.lua_close t)

theorem enter_trans {c : Config T} {a : Act T} {t : T} (ha : a.Enters t) (ht : (c.phase t).MayEnter) :
    Trans p c (c.enter p t) a := by
  unfold Config.enter Pool.open
  by_cases hw : c.pool.waits p
  · simp only [hw, ↓reduceIte]
    exact .park ha ht hw (moves_move ..)
  · simp only [hw, ↓reduceIte]
    cases hi : c.pool.idle_states with
    | cons front rest => exact .take ha ht hi (moves_move ..)
    | nil =>
        refine .begin ha ht hi ?_ (moves_move ..)
        simp only [Pool.waits, hi, true_and] at hw
        omega

theorem step_close {c : Config T} {t : T} {state : Nat} (ht : c.phase t = .holding state) :
    step p c (.close t) = some (Config.move { c with pool := (c.pool.close p state).2 } t
      (if (c.pool.close p state).1 then .out else .discarding state)) := by
  simp only [step, ht]
  cases c.pool.close p state with
  | mk kept pool => cases kept <;> rfl

theorem step_trans {c c' : Config T} {a : Act T} (h : step p c a = some c') : Trans p c c' a := by
  cases a with
  | «open» t =>
      simp only [step, Option.ite_none_right_eq_some, Option.some.injEq] at h
      obtain ⟨ht, rfl⟩ := h
      exact enter_trans (Or.inl rfl) (Or.inl ht)
  | wake t =>
      simp only [step, Option.ite_none_right_eq_some, Option.some.injEq] at h
      obtain ⟨ht, rfl⟩ := h
      exact .wake ht (moves_move ..)
  | resume t =>
      simp only [step, Option.ite_none_right_eq_some, Option.some.injEq] at h
      obtain ⟨ht, rfl⟩ := h
      exact enter_trans (Or.inr rfl) (Or.inr ht)
  | construct t =>
      simp only [step, Option.ite_none_right_eq_some, Option.some.injEq] at h
      obtain ⟨ht, rfl⟩ := h
      exact .construct ht (moves_move ..)
  | throw t =>
      simp only [step, Option.ite_none_right_eq_some, Option.some.injEq] at h
      obtain ⟨ht, rfl⟩ := h
      exact .throw ht (moves_move ..)
  | close t =>
      simp only [step] at h
      split at h
      · rename_i state ht
        by_cases hlt : c.pool.idle_states.length < p.max_idle_states
        · simp only [Pool.close, hlt, ↓reduceIte, Option.some.injEq] at h
          subst h
          exact .keep ht hlt (moves_move ..)
        · simp only [Pool.close, hlt, ↓reduceIte, Option.some.injEq] at h
          subst h
          exact .discard ht (by omega) (moves_move ..)
      · cases h
  | lua_close t =>
      simp only [step] at h
      split at h
      · rename_i state ht
        simp only [Option.some.injEq] at h
        subst h
        exact .lua_close ht (moves_move ..)
      · cases h

/-- A phase that was not there before the step is the one the step moved to. -/
theorem Moves.changed {c c' : Config T} {t u : T} {ph ph' : Phase} {pool created closed}
    (hm : Moves c c' t ph pool created closed) (hu' : c'.phase u = ph') (hu : c.phase u ≠ ph') :
    u = t ∧ ph = ph' := by
  rw [hm.phase] at hu'
  by_cases hut : u = t
  · subst hut
    rw [Function.update_self] at hu'
    exact ⟨rfl, hu'⟩
  · rw [Function.update_of_ne hut] at hu'
    exact absurd hu' hu

theorem Act.Enters.mayEnter {c c' : Config T} {a : Act T} {t : T} (ha : a.Enters t)
    (hs : step p c a = some c') : (c.phase t).MayEnter := by
  rcases ha with rfl | rfl
  · simp only [step, Option.ite_none_right_eq_some] at hs
    exact Or.inl hs.1
  · simp only [step, Option.ite_none_right_eq_some] at hs
    exact Or.inr hs.1

theorem Phase.MayEnter.not_parked {ph : Phase} (h : ph.MayEnter) : ph ≠ .waiting .parked := by
  rcases h with rfl | rfl | rfl <;> simp

/-- A caller about to take the mutex for `open()` has no state. -/
theorem Phase.MayEnter.holds {ph : Phase} (h : ph.MayEnter) (s : Nat) : ph.holds s = 0 := by
  rcases h with rfl | rfl | rfl <;> rfl

theorem Phase.MayEnter.discards {ph : Phase} (h : ph.MayEnter) (s : Nat) : ph.discards s = 0 := by
  rcases h with rfl | rfl | rfl <;> rfl

end DromozoaFuse.Manager
