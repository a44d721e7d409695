import DromozoaFuse.Base.Run
import DromozoaFuse.Base.Threads

/-!
# `state_manager_main`

One Lua state, handed from caller to caller. A step is one critical section, from taking the mutex to
releasing it or to waiting on `condition_`. `condition_.notify_one()` in `close()` signals one of the
parked callers, and its label says which.
-/

namespace DromozoaFuse.Manager.Main

open Base

inductive Phase
  | out
  | waiting (w : Wait)
  | holding (state : Nat)
  deriving DecidableEq, Repr

/-- A configuration in which nobody is inside the critical section. -/
structure Config (T : Type*) where
  state_ : Option Nat
  phase : T → Phase

inductive Act (T : Type*)
  | open (t : T)
  | wake (t : T)
  | resume (t : T)
  | close (t : T) (signalled : Option T)
  deriving DecidableEq, Repr

def Config.init {T : Type*} (state : Nat) : Config T := ⟨some state, fun _ => .out⟩

variable {T : Type*} [DecidableEq T]

def Config.move (c : Config T) (t : T) (ph : Phase) : Config T :=
  { c with phase := Function.update c.phase t ph }

/-- `open()` from the point where it has the mutex. -/
def Config.enter (c : Config T) (t : T) : Config T :=
  match c.state_ with
  | none => c.move t (.waiting .parked)
  | some state => { c with state_ := none }.move t (.holding state)

variable [Fintype T]

def step (c : Config T) : Act T → Option (Config T)
  | .open t => if c.phase t = .out then some (c.enter t) else none
  | .wake t => if c.phase t = .waiting .parked then some (c.move t (.waiting .spurious)) else none
  | .resume t =>
      if c.phase t = .waiting .signalled ∨ c.phase t = .waiting .spurious then some (c.enter t) else none
  | .close t signalled =>
      match c.phase t, signalled with
      | .holding state, some u =>
          if c.phase u = .waiting .parked then
            some (({ c with state_ := some state }.move t .out).move u (.waiting .signalled))
          else none
      | .holding state, none =>
          if ∀ u, c.phase u ≠ .waiting .parked then some ({ c with state_ := some state }.move t .out) else none
      | _, _ => none

/-! ## What one step can do -/

inductive Trans (c : Config T) : Act T → Config T → Prop
  | enter {a t} : (a = .open t ∨ a = .resume t) → (∀ s, c.phase t ≠ .holding s) → Trans c a (c.enter t)
  | wake {t} : c.phase t = .waiting .parked → Trans c (.wake t) (c.move t (.waiting .spurious))
  | signal {t u state} : c.phase t = .holding state → c.phase u = .waiting .parked → u ≠ t →
      Trans c (.close t (some u)) (({ c with state_ := some state }.move t .out).move u (.waiting .signalled))
  | close {t state} : c.phase t = .holding state → (∀ u, c.phase u ≠ .waiting .parked) →
      Trans c (.close t none) ({ c with state_ := some state }.move t .out)

theorem step_trans {c c' : Config T} {a : Act T} (h : step c a = some c') : Trans c a c' := by
  cases a with
  | «open» t =>
      simp only [step, Option.ite_none_right_eq_some, Option.some.injEq] at h
      obtain ⟨ht, rfl⟩ := h
      exact .enter (Or.inl rfl) (by simp [ht])
  | wake t =>
      simp only [step, Option.ite_none_right_eq_some, Option.some.injEq] at h
      obtain ⟨ht, rfl⟩ := h
      exact .wake ht
  | resume t =>
      simp only [step, Option.ite_none_right_eq_some, Option.some.injEq] at h
      obtain ⟨ht, rfl⟩ := h
      exact .enter (Or.inr rfl) (by rcases ht with ht | ht <;> simp [ht])
  | close t signalled =>
      simp only [step] at h
      split at h
      · rename_i state u ht
        simp only [Option.ite_none_right_eq_some, Option.some.injEq] at h
        obtain ⟨hu, rfl⟩ := h
        have hne : u ≠ t := fun heq => by simp [← heq, hu] at ht
        exact .signal ht hu hne
      · rename_i state ht
        simp only [Option.ite_none_right_eq_some, Option.some.injEq] at h
        obtain ⟨hnone, rfl⟩ := h
        exact .close ht hnone
      · cases h

/-! ## One owner -/

/-- Nobody has the state, or one caller has. -/
def Owned (state : Nat) (c : Config T) : Prop :=
  ∃ owner : Option T, c.state_ = (if owner = none then some state else none) ∧
    ∀ t s, c.phase t = .holding s ↔ owner = some t ∧ s = state

omit [Fintype T] [DecidableEq T] in
theorem owned_init (state : Nat) : Owned state (Config.init state : Config T) :=
  ⟨none, rfl, fun t s => by simp [Config.init]⟩

omit [Fintype T] in
theorem Owned.move {state : Nat} {c : Config T} (h : Owned state c) {t : T} {ph : Phase}
    (ht : ∀ s, c.phase t ≠ .holding s) (hph : ∀ s, ph ≠ .holding s) : Owned state (c.move t ph) := by
  obtain ⟨owner, hstate, hphase⟩ := h
  refine ⟨owner, hstate, fun u s => ?_⟩
  by_cases hu : u = t
  · subst hu
    simp only [Config.move, Function.update_self, ← hphase]
    exact iff_of_false (hph s) (ht s)
  · simp only [Config.move, Function.update_of_ne hu, hphase]

omit [Fintype T] in
theorem Owned.enter {state : Nat} {c : Config T} (h : Owned state c) {t : T}
    (ht : ∀ s, c.phase t ≠ .holding s) : Owned state (c.enter t) := by
  unfold Config.enter
  cases hs : c.state_ with
  | none => exact h.move ht (by simp)
  | some s =>
      obtain ⟨owner, hstate, hphase⟩ := h
      cases owner with
      | some u =>
          rw [hs] at hstate
          cases hstate
      | none =>
          obtain rfl : s = state := by simpa [hs] using hstate
          refine ⟨some t, rfl, fun u s' => ?_⟩
          by_cases hu : u = t
          · subst hu
            simp [Config.move, eq_comm]
          · have hnot : c.phase u ≠ .holding s' := fun hh => by simpa using (hphase u s').mp hh
            simp only [Config.move, Function.update_of_ne hu]
            refine iff_of_false hnot ?_
            rintro ⟨heq, -⟩
            exact hu (Option.some.inj heq).symm

omit [Fintype T] in
theorem Owned.close {state : Nat} {c : Config T} (h : Owned state c) {t : T} {s : Nat}
    (ht : c.phase t = .holding s) : Owned state ({ c with state_ := some s }.move t .out) := by
  obtain ⟨owner, hstate, hphase⟩ := h
  obtain ⟨rfl, rfl⟩ := (hphase t s).mp ht
  refine ⟨none, rfl, fun u s' => ?_⟩
  by_cases hu : u = t
  · subst hu
    simp [Config.move]
  · have hnot : c.phase u ≠ .holding s' := fun hh => hu (by simpa using ((hphase u s').mp hh).1.symm)
    simp only [Config.move, Function.update_of_ne hu, reduceCtorEq, false_and, iff_false]
    exact hnot

theorem owned_step {state : Nat} (c : Config T) (a : Act T) (c' : Config T) (h : Owned state c)
    (hs : step c a = some c') : Owned state c' := by
  cases step_trans hs with
  | enter _ ht => exact h.enter ht
  | wake ht => exact h.move (by simp [ht]) (by simp)
  | signal ht hu hne =>
      exact (h.close ht).move (by simp [Config.move, Function.update_of_ne hne, hu]) (by simp)
  | close ht _ => exact h.close ht

end DromozoaFuse.Manager.Main
