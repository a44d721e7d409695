import Mathlib.Algebra.BigOperators.Group.Finset.Basic
import Mathlib.Algebra.Order.BigOperators.Group.Finset
import Mathlib.Data.Fintype.Basic

/-!
# Finitely many threads

What each thread is doing is a function from threads to phases. Quantities that count threads are
sums of a weight over all threads, and one thread changing its phase changes one summand.

Blocking follows pthread condition variables: a thread inside `pthread_cond_wait` is parked until a
signal reaches it or it wakes up spuriously, and has to take the mutex again before it can go on.
-/

namespace DromozoaFuse.Base

variable {T κ : Type*} [Fintype T]

/-- The total weight of the threads' phases. -/
def tally (weight : κ → Nat) (phase : T → κ) : Nat := ∑ t, weight (phase t)

theorem tally_update [DecidableEq T] (weight : κ → Nat) (phase : T → κ) (t : T) (k : κ) :
    tally weight (Function.update phase t k) + weight (phase t) = tally weight phase + weight k := by
  have hrest : ∑ u ∈ Finset.univ.erase t, weight (Function.update phase t k u) =
      ∑ u ∈ Finset.univ.erase t, weight (phase u) := by
    refine Finset.sum_congr rfl fun u hu => ?_
    rw [Function.update_of_ne (Finset.ne_of_mem_erase hu)]
  have h₁ := Finset.add_sum_erase Finset.univ (fun u => weight (Function.update phase t k u))
    (Finset.mem_univ t)
  have h₂ := Finset.add_sum_erase Finset.univ (fun u => weight (phase u)) (Finset.mem_univ t)
  simp only [Function.update_self] at h₁
  unfold tally
  omega

/-- Two families of phases that weigh the same but for one thread. -/
theorem tally_moved {κ' : Type*} {weight : κ → Nat} {weight' : κ' → Nat} {phase : T → κ} {phase' : T → κ'} {t : T}
    (h : ∀ u, u ≠ t → weight' (phase' u) = weight (phase u)) :
    tally weight' phase' + weight (phase t) = tally weight phase + weight' (phase' t) := by
  classical
  have hrest : ∑ u ∈ Finset.univ.erase t, weight' (phase' u) = ∑ u ∈ Finset.univ.erase t, weight (phase u) :=
    Finset.sum_congr rfl fun u hu => h u (Finset.ne_of_mem_erase hu)
  have h₁ := Finset.add_sum_erase Finset.univ (fun u => weight' (phase' u)) (Finset.mem_univ t)
  have h₂ := Finset.add_sum_erase Finset.univ (fun u => weight (phase u)) (Finset.mem_univ t)
  unfold tally
  omega

theorem le_tally (weight : κ → Nat) (phase : T → κ) (t : T) : weight (phase t) ≤ tally weight phase :=
  Finset.single_le_sum (f := fun u => weight (phase u)) (fun _ _ => Nat.zero_le _) (Finset.mem_univ t)

theorem tally_le {weight : κ → Nat} {n : Nat} (h : ∀ k, weight k ≤ n) (phase : T → κ) :
    tally weight phase ≤ Fintype.card T * n := by
  calc tally weight phase ≤ ∑ _ : T, n := Finset.sum_le_sum fun t _ => h (phase t)
    _ = Fintype.card T * n := Finset.sum_const_nat fun _ _ => rfl

/-- One thread that weighs nothing leaves room for one. -/
theorem tally_lt_card {weight : κ → Nat} (h : ∀ k, weight k ≤ 1) {phase : T → κ} {t : T}
    (ht : weight (phase t) = 0) : tally weight phase < Fintype.card T := by
  calc tally weight phase < ∑ _ : T, 1 :=
        Finset.sum_lt_sum (fun u _ => h (phase u)) ⟨t, Finset.mem_univ t, by rw [ht]; exact Nat.one_pos⟩
    _ = Fintype.card T := (Finset.sum_const_nat fun _ _ => rfl).trans (Nat.mul_one _)

theorem add_le_tally (weight : κ → Nat) (phase : T → κ) {t u : T} (h : t ≠ u) :
    weight (phase t) + weight (phase u) ≤ tally weight phase :=
  Finset.add_le_sum (f := fun u => weight (phase u)) (fun _ _ => Nat.zero_le _) (Finset.mem_univ t)
    (Finset.mem_univ u) h

theorem tally_eq_zero {weight : κ → Nat} {phase : T → κ} :
    tally weight phase = 0 ↔ ∀ t, weight (phase t) = 0 := by
  simp [tally, Finset.sum_eq_zero_iff]

/-- Where a thread stands that called `pthread_cond_wait`. -/
inductive Wait
  | parked
  | signalled
  | spurious
  deriving DecidableEq, Repr

/-- No wake-up is lost: when a thread is parked although nothing blocks it, some thread that waited
has been signalled and is runnable. -/
def NoLostWakeup (waiting : T → Option Wait) (blocked : Prop) : Prop :=
  (∃ t, waiting t = some .parked) → ¬ blocked → ∃ t, waiting t = some .signalled

end DromozoaFuse.Base
