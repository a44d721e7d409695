import DromozoaFuse.Manager.Lemmas.PoolInvariants
import DromozoaFuse.Manager.Main

/-!
# `state_manager`

What a session needs of a state manager: its steps, who makes them and in which of the two functions,
who has which state, and that no two callers have the same one. Both managers of the source have it.
-/

namespace DromozoaFuse.Session

open Base Manager

structure StateManager (T : Type) where
  Config : Type
  Act : Type
  init : Config
  step : Config → Act → Option Config
  /-- Who acts. -/
  caller : Act → T
  /-- The act is one of `close()`, and else one of `open()`. -/
  closes : Act → Bool
  /-- The state that a caller has got and not given back. -/
  held : Config → T → Option Nat
  /-- The caller is in neither function and has no state. -/
  out : Config → T → Bool
  Inv : Config → Prop
  inv_init : Inv init
  inv_step : ∀ {c a c'}, Inv c → step c a = some c' → Inv c'
  init_held : ∀ t, held init t = none
  out_held : ∀ {c t}, out c t = true → held c t = none
  exclusive : ∀ {c t u s}, Inv c → held c t = some s → held c u = some s → t = u
  frame : ∀ {c a c' t}, step c a = some c' → t ≠ caller a → held c' t = held c t
  returned : ∀ {c a c'}, step c a = some c' → closes a = true → held c' (caller a) = none

variable {T : Type}

/-! ## Callers and holders -/

def main_held (c : Main.Config T) (t : T) : Option Nat :=
  match c.phase t with
  | .holding s => some s
  | _ => none

theorem main_held_eq {c : Main.Config T} {t : T} {s : Nat} :
    main_held c t = some s ↔ c.phase t = .holding s := by
  unfold main_held
  cases c.phase t <;> simp

def main_caller : Main.Act T → T
  | .open t | .wake t | .resume t | .close t _ => t

def main_closes : Main.Act T → Bool
  | .close .. => true
  | _ => false

def pool_held (c : Manager.Config T) (t : T) : Option Nat :=
  match c.phase t with
  | .holding s => some s
  | _ => none

theorem pool_held_eq {c : Manager.Config T} {t : T} {s : Nat} :
    pool_held c t = some s ↔ c.phase t = .holding s := by
  unfold pool_held
  cases c.phase t <;> simp

def pool_caller : Manager.Act T → T
  | .open t | .wake t | .resume t | .construct t | .throw t | .close t | .lua_close t => t

def pool_closes : Manager.Act T → Bool
  | .close _ | .lua_close _ => true
  | _ => false

variable [DecidableEq T]

/-! ## `state_manager_main` -/

theorem main_held_move (c : Main.Config T) {t u : T} (ph : Main.Phase) (h : u ≠ t) :
    main_held (c.move t ph) u = main_held c u := by
  simp [main_held, Main.Config.move, Function.update_of_ne h]

theorem main_held_enter (c : Main.Config T) {t u : T} (h : u ≠ t) : main_held (c.enter t) u = main_held c u := by
  unfold Main.Config.enter
  cases c.state_ <;> exact main_held_move _ _ h

variable [Fintype T]

theorem main_frame {c c' : Main.Config T} {a : Main.Act T} {u : T} (hs : Main.step c a = some c')
    (hu : u ≠ main_caller a) : main_held c' u = main_held c u := by
  cases Main.step_trans hs with
  | enter ha _ => rcases ha with rfl | rfl <;> exact main_held_enter c hu
  | wake _ => exact main_held_move c _ hu
  | @signal t v _ _ hv _ =>
      by_cases huv : u = v
      · subst huv
        simp [main_held, Main.Config.move, hv]
      · rw [main_held_move _ _ huv]
        exact main_held_move _ _ hu
  | close _ _ => exact main_held_move _ _ hu

theorem main_returned {c c' : Main.Config T} {a : Main.Act T} (hs : Main.step c a = some c')
    (ha : main_closes a = true) : main_held c' (main_caller a) = none := by
  cases Main.step_trans hs with
  | enter ha' _ => rcases ha' with rfl | rfl <;> cases ha
  | wake _ => cases ha
  | signal _ _ hne =>
      rw [main_caller, main_held_move _ _ hne.symm]
      simp [main_held, Main.Config.move]
  | close _ _ => simp [main_caller, main_held, Main.Config.move]

/-- The manager of the one state. -/
def state_manager_main (T : Type) [DecidableEq T] [Fintype T] (state : Nat) : StateManager T where
  Config := Main.Config T
  Act := Main.Act T
  init := .init state
  step := Main.step
  caller := main_caller
  closes := main_closes
  held := main_held
  out c t := c.phase t = .out
  Inv := Main.Owned state
  inv_init := Main.owned_init state
  inv_step := Main.owned_step _ _ _
  init_held _ := rfl
  out_held h := by simp only [decide_eq_true_eq] at h; simp [main_held, h]
  exclusive h ht hu := by
    obtain ⟨owner, -, hphase⟩ := h
    have ht := ((hphase _ _).mp (main_held_eq.mp ht)).1
    have hu := ((hphase _ _).mp (main_held_eq.mp hu)).1
    exact Option.some.inj (ht.symm.trans hu)
  frame := main_frame
  returned := main_returned

/-! ## `state_manager_pool` -/

variable {p : PoolParams}

omit [Fintype T] in
theorem pool_moves {c c' : Manager.Config T} {a : Manager.Act T} (hs : Manager.step p c a = some c') :
    ∃ ph pool created closed, Moves c c' (pool_caller a) ph pool created closed ∧
      (pool_closes a = true → ∀ s, ph ≠ .holding s) := by
  cases step_trans hs with
  | park ha _ _ hm | take ha _ _ hm | begin ha _ _ _ hm =>
      rcases ha with rfl | rfl <;> exact ⟨_, _, _, _, hm, by simp [pool_closes]⟩
  | wake _ hm | construct _ hm | throw _ hm | keep _ _ hm | discard _ _ hm | lua_close _ hm =>
      exact ⟨_, _, _, _, hm, by simp [pool_closes]⟩

omit [Fintype T] in
theorem pool_frame {c c' : Manager.Config T} {a : Manager.Act T} {u : T} (hs : Manager.step p c a = some c')
    (hu : u ≠ pool_caller a) : pool_held c' u = pool_held c u := by
  obtain ⟨ph, pool, created, closed, hm, -⟩ := pool_moves hs
  simp [pool_held, hm.phase, Function.update_of_ne hu]

omit [Fintype T] in
theorem pool_returned {c c' : Manager.Config T} {a : Manager.Act T} (hs : Manager.step p c a = some c')
    (ha : pool_closes a = true) : pool_held c' (pool_caller a) = none := by
  obtain ⟨ph, pool, created, closed, hm, hph⟩ := pool_moves hs
  rw [pool_held, hm.phase, Function.update_self]
  cases ph with
  | holding s => exact absurd rfl (hph ha s)
  | _ => rfl

/-- The pool. -/
def state_manager_pool (T : Type) [DecidableEq T] [Fintype T] (p : PoolParams) : StateManager T where
  Config := Manager.Config T
  Act := Manager.Act T
  init := .init p
  step := Manager.step p
  caller := pool_caller
  closes := pool_closes
  held := pool_held
  out c t := c.phase t = .out
  Inv := PoolInv p
  inv_init := poolInv_init
  inv_step := poolInv_step _ _ _
  init_held _ := rfl
  out_held h := by simp only [decide_eq_true_eq] at h; simp [pool_held, h]
  exclusive h ht hu := h.owned.exclusive (pool_held_eq.mp ht) (pool_held_eq.mp hu)
  frame := pool_frame
  returned := pool_returned

end DromozoaFuse.Session
