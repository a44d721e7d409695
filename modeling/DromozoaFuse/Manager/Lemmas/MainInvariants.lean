import DromozoaFuse.Manager.Main

/-!
# The wake-ups of `state_manager_main`

A caller that comes between a signal and the caller it has woken takes the state away again. So a
configuration has to be looked at as it is, and not by who was signalled for which state.
-/

namespace DromozoaFuse.Manager.Main

open Base

variable {T : Type*}

def Phase.waiting? : Phase → Option Wait
  | .waiting w => some w
  | _ => none

def Config.waiting (c : Config T) (t : T) : Option Wait := (c.phase t).waiting?

/-- A parked caller is blocked while the state is out. -/
def Config.NoLostWakeup (c : Config T) : Prop := Base.NoLostWakeup c.waiting (c.state_ = none)

theorem waiting_eq_some {c : Config T} {t : T} {w : Wait} : c.waiting t = some w ↔ c.phase t = .waiting w := by
  unfold Config.waiting Phase.waiting?
  cases c.phase t <;> simp

theorem noLostWakeup_iff {c : Config T} : c.NoLostWakeup ↔
    ((∃ t, c.phase t = .waiting .parked) → c.state_ ≠ none → ∃ t, c.phase t = .waiting .signalled) := by
  simp only [Config.NoLostWakeup, Base.NoLostWakeup, waiting_eq_some, ne_eq]

theorem noLostWakeup_init (state : Nat) : (Config.init state : Config T).NoLostWakeup := by
  rw [noLostWakeup_iff]
  rintro ⟨t, ht⟩
  cases ht

variable [DecidableEq T]

theorem enter_state (c : Config T) (t : T) : (c.enter t).state_ = none := by
  unfold Config.enter
  cases hs : c.state_ with
  | none => exact hs
  | some s => rfl

theorem noLostWakeup_enter (c : Config T) (t : T) : (c.enter t).NoLostWakeup :=
  noLostWakeup_iff.mpr fun _ h => absurd (enter_state c t) h

theorem Config.NoLostWakeup.wake {c : Config T} (h : c.NoLostWakeup) {t : T}
    (ht : c.phase t = .waiting .parked) : (c.move t (.waiting .spurious)).NoLostWakeup := by
  rw [noLostWakeup_iff] at h ⊢
  intro _ hs
  obtain ⟨u, hu⟩ := h ⟨t, ht⟩ hs
  have hut : u ≠ t := by
    rintro rfl
    rw [ht] at hu
    cases hu
  exact ⟨u, (Function.update_of_ne hut ..).trans hu⟩

variable [Fintype T]

theorem noLostWakeup_step (c : Config T) (a : Act T) (c' : Config T) (h : c.NoLostWakeup)
    (hs : step c a = some c') : c'.NoLostWakeup := by
  cases step_trans hs with
  | enter _ _ => exact noLostWakeup_enter c _
  | wake ht => exact h.wake ht
  | @signal t u _ _ _ _ => exact noLostWakeup_iff.mpr fun _ _ => ⟨u, Function.update_self ..⟩
  | @close t _ _ hnone =>
      rw [noLostWakeup_iff]
      rintro ⟨u, hu⟩
      by_cases hut : u = t
      · subst hut
        simp only [Config.move, Function.update_self] at hu
        cases hu
      · simp only [Config.move, Function.update_of_ne hut] at hu
        exact absurd hu (hnone u)

structure MainInv (state : Nat) (c : Config T) : Prop where
  owned : Owned state c
  woken : c.NoLostWakeup

theorem mainInv_reachable {state : Nat} {c : Config T} (h : Reachable step (Config.init state) c) :
    MainInv state c :=
  h.invariant ⟨owned_init state, noLostWakeup_init state⟩ fun c a c' hinv hs =>
    ⟨owned_step c a c' hinv.owned hs, noLostWakeup_step c a c' hinv.woken hs⟩

theorem resume_takes {c : Config T} {t : T} {s : Nat} (ht : c.phase t = .waiting .signalled)
    (hs : c.state_ = some s) : ∃ c', step c (.resume t) = some c' ∧ c'.phase t = .holding s := by
  refine ⟨c.enter t, by simp [step, ht], ?_⟩
  rw [Config.enter, hs]
  exact Function.update_self ..

end DromozoaFuse.Manager.Main
