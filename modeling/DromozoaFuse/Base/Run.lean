import Mathlib.Data.List.Basic

/-!
# Runs of a labelled transition relation

A run records, for every step it made, the state the step started in and its label. Properties of a
run are properties of the states it passed through and of the recorded steps.
-/

namespace DromozoaFuse.Base

variable {σ α : Type*}

/-- A run of `step` from `s₀`: the steps made so far, oldest first, and the state reached. -/
inductive Run (step : σ → α → Option σ) (s₀ : σ) : List (σ × α) → σ → Prop
  | nil : Run step s₀ [] s₀
  | snoc {tr s a s'} : Run step s₀ tr s → step s a = some s' → Run step s₀ (tr ++ [(s, a)]) s'

def Reachable (step : σ → α → Option σ) (s₀ s : σ) : Prop := ∃ tr, Run step s₀ tr s

/-- `P` holds in every state of the run, the last one included. -/
def Always (P : σ → Prop) (tr : List (σ × α)) (s : σ) : Prop := (∀ p ∈ tr, P p.1) ∧ P s

def EveryStep (C : σ → α → Prop) (tr : List (σ × α)) : Prop := ∀ p ∈ tr, C p.1 p.2

theorem always_snoc {P : σ → Prop} {tr : List (σ × α)} {s a s'} :
    Always P (tr ++ [(s, a)]) s' ↔ Always P tr s ∧ P s' := by
  simp only [Always, List.mem_append, List.mem_singleton]
  constructor
  · rintro ⟨h, hs'⟩
    exact ⟨⟨fun p hp => h p (Or.inl hp), h (s, a) (Or.inr rfl)⟩, hs'⟩
  · rintro ⟨⟨h, hs⟩, hs'⟩
    refine ⟨?_, hs'⟩
    rintro p (hp | rfl)
    · exact h p hp
    · exact hs

theorem everyStep_snoc {C : σ → α → Prop} {tr : List (σ × α)} {s a} :
    EveryStep C (tr ++ [(s, a)]) ↔ EveryStep C tr ∧ C s a := by
  simp only [EveryStep, List.mem_append, List.mem_singleton]
  constructor
  · exact fun h => ⟨fun p hp => h p (Or.inl hp), h (s, a) (Or.inr rfl)⟩
  · rintro ⟨h, hc⟩ p (hp | rfl)
    · exact h p hp
    · exact hc

theorem filterMap_singleton {β : Type*} (f : α → Option β) (a : α) : [a].filterMap f = (f a).toList := by
  cases h : f a <;> simp [h]

theorem everyStep_singleton {C : σ → α → Prop} {s a} : EveryStep C [(s, a)] ↔ C s a := by
  simp [EveryStep]

variable {step : σ → α → Option σ} {s₀ : σ}

theorem Run.single {a s} (hs : step s₀ a = some s) : Run step s₀ [(s₀, a)] s := .snoc .nil hs

/-- The induction rule: what holds at the start and is kept by every step holds in every state. -/
theorem Run.always {Inv : σ → Prop} (h₀ : Inv s₀)
    (hstep : ∀ s a s', Inv s → step s a = some s' → Inv s') {tr s} (h : Run step s₀ tr s) :
    Always Inv tr s := by
  induction h with
  | nil => exact ⟨by simp, h₀⟩
  | snoc _ hs ih => exact always_snoc.mpr ⟨ih, hstep _ _ _ ih.2 hs⟩

theorem Reachable.invariant {Inv : σ → Prop} (h₀ : Inv s₀)
    (hstep : ∀ s a s', Inv s → step s a = some s' → Inv s') {s} (h : Reachable step s₀ s) : Inv s :=
  (h.choose_spec.always h₀ hstep).2

/-- A property that a step keeps exactly when it meets `C` holds throughout a run exactly when every
step of the run meets `C`. `Inv` is an invariant the steps may use. -/
theorem Run.always_iff {Inv P : σ → Prop} {C : σ → α → Prop} (hI : Inv s₀)
    (hInv : ∀ s a s', Inv s → step s a = some s' → Inv s') (h₀ : P s₀)
    (hP : ∀ s a s', Inv s → P s → step s a = some s' → (P s' ↔ C s a))
    {tr s} (h : Run step s₀ tr s) : Always P tr s ↔ EveryStep C tr := by
  induction h with
  | nil => exact ⟨fun _ => by simp [EveryStep], fun _ => ⟨by simp, h₀⟩⟩
  | @snoc tr s a s' hr hs ih =>
      rw [always_snoc, everyStep_snoc, ih]
      have hinv : Inv s := (hr.always hI hInv).2
      constructor
      · rintro ⟨hc, hs'⟩
        exact ⟨hc, (hP _ _ _ hinv (ih.mpr hc).2 hs).mp hs'⟩
      · rintro ⟨hc, hca⟩
        exact ⟨hc, (hP _ _ _ hinv (ih.mpr hc).2 hs).mpr hca⟩

theorem Run.step_of_mem {tr s} (h : Run step s₀ tr s) {p : σ × α} (hp : p ∈ tr) :
    ∃ s', step p.1 p.2 = some s' := by
  induction h with
  | nil => simp at hp
  | snoc _ hs ih =>
      rcases List.mem_append.mp hp with hp | hp
      · exact ih hp
      · rw [List.mem_singleton] at hp
        subst hp
        exact ⟨_, hs⟩

/-- The run that takes the given labels in order, when every one of them is enabled. -/
def exec (step : σ → α → Option σ) (s : σ) : List α → Option (List (σ × α) × σ)
  | [] => some ([], s)
  | a :: as =>
      match step s a with
      | none => none
      | some s' => (exec step s' as).map fun r => ((s, a) :: r.1, r.2)

theorem Run.cons {a s₁} (hs : step s₀ a = some s₁) {tr s} (h : Run step s₁ tr s) :
    Run step s₀ ((s₀, a) :: tr) s := by
  induction h with
  | nil => exact .snoc .nil hs
  | snoc _ hs' ih => exact .snoc ih hs'

theorem Run.append {tr s₁} (h : Run step s₀ tr s₁) {tr' s} (h' : Run step s₁ tr' s) :
    Run step s₀ (tr ++ tr') s := by
  induction h' with
  | nil => rwa [List.append_nil]
  | snoc _ hs ih =>
      rw [← List.append_assoc]
      exact .snoc ih hs

theorem run_of_exec (as : List α) {tr s} (h : exec step s₀ as = some (tr, s)) : Run step s₀ tr s := by
  induction as generalizing s₀ tr with
  | nil => simp only [exec, Option.some.injEq, Prod.mk.injEq] at h; obtain ⟨rfl, rfl⟩ := h; exact .nil
  | cons a as ih =>
      simp only [exec] at h
      split at h
      · cases h
      · rename_i s' hs
        obtain ⟨⟨tr', s''⟩, hr, he⟩ := Option.map_eq_some_iff.mp h
        simp only [Prod.mk.injEq] at he
        obtain ⟨rfl, rfl⟩ := he
        exact .cons hs (ih hr)

theorem exec_labels (as : List α) {tr s} (h : exec step s₀ as = some (tr, s)) : tr.map Prod.snd = as := by
  induction as generalizing s₀ tr with
  | nil => simp only [exec, Option.some.injEq, Prod.mk.injEq] at h; obtain ⟨rfl, rfl⟩ := h; rfl
  | cons a as ih =>
      simp only [exec] at h
      split at h
      · cases h
      · obtain ⟨⟨tr', s''⟩, hr, he⟩ := Option.map_eq_some_iff.mp h
        simp only [Prod.mk.injEq] at he
        obtain ⟨rfl, rfl⟩ := he
        rw [List.map_cons, ih hr]

/-- The ranking rule: a run of steps that lower a measure is no longer than the measure was high. -/
theorem Run.length_le {C : σ → α → Prop} {μ : σ → Nat}
    (hμ : ∀ s a s', C s a → step s a = some s' → μ s' < μ s) {tr s} (h : Run step s₀ tr s)
    (hC : EveryStep C tr) : tr.length + μ s ≤ μ s₀ := by
  induction h with
  | nil => simp
  | snoc _ hs ih =>
      obtain ⟨hC, hCa⟩ := everyStep_snoc.mp hC
      have hlower := hμ _ _ _ hCa hs
      have hle := ih hC
      rw [List.length_append, List.length_singleton]
      omega

/-- Such steps can be made until none is left. -/
theorem Run.exhausted {C : σ → α → Prop} {μ : σ → Nat} (hμ : ∀ s a s', C s a → step s a = some s' → μ s' < μ s)
    (s₀ : σ) : ∃ tr s, Run step s₀ tr s ∧ EveryStep C tr ∧ ∀ a, C s a → step s a = none := by
  induction hn : μ s₀ using Nat.strongRecOn generalizing s₀ with
  | ind n ih =>
      subst hn
      by_cases hstuck : ∀ a, C s₀ a → step s₀ a = none
      · exact ⟨[], s₀, .nil, by simp [EveryStep], hstuck⟩
      · obtain ⟨a, hCa, hne⟩ : ∃ a, C s₀ a ∧ step s₀ a ≠ none := by simpa using hstuck
        obtain ⟨s₁, hs⟩ := Option.ne_none_iff_exists'.mp hne
        obtain ⟨tr, s, hr, hC, hstuck⟩ := ih (μ s₁) (hμ _ _ _ hCa hs) s₁ rfl
        refine ⟨(s₀, a) :: tr, s, hr.cons hs, ?_, hstuck⟩
        exact List.forall_mem_cons.mpr ⟨hCa, hC⟩

/-! ## Reachability across systems -/

theorem Reachable.refl : Reachable step s₀ s₀ := ⟨[], .nil⟩

theorem Reachable.tail {s a s'} (h : Reachable step s₀ s) (hs : step s a = some s') : Reachable step s₀ s' := by
  obtain ⟨tr, hr⟩ := h
  exact ⟨_, .snoc hr hs⟩

theorem Reachable.trans {s₁ s} (h : Reachable step s₀ s₁) (h' : Reachable step s₁ s) : Reachable step s₀ s := by
  obtain ⟨tr, hr⟩ := h'
  induction hr with
  | nil => exact h
  | snoc _ hs ih => exact ih.tail hs

/-- The simulation rule: where every step of one system is matched by steps of another, what the first one
reaches is related to something that the second one reaches. -/
theorem Reachable.simulated {τ β : Type*} {step' : τ → β → Option τ} {t₀ : τ} {R : σ → τ → Prop} (h₀ : R s₀ t₀)
    (hstep : ∀ s a s' t, R s t → step s a = some s' → ∃ t', Reachable step' t t' ∧ R s' t') {s}
    (h : Reachable step s₀ s) : ∃ t, Reachable step' t₀ t ∧ R s t := by
  obtain ⟨tr, hr⟩ := h
  induction hr with
  | nil => exact ⟨t₀, .refl, h₀⟩
  | snoc _ hs ih =>
      obtain ⟨t, ht, hR⟩ := ih
      obtain ⟨t', ht', hR'⟩ := hstep _ _ _ _ hR hs
      exact ⟨t', ht.trans ht', hR'⟩

/-- The simulation rule for what is seen of a run: where one system shows nothing but the labels of steps that another
one can make, so do its runs. -/
theorem Run.shown {τ β : Type*} {step' : τ → β → Option τ} {t₀ : τ} {see : σ × α → Option β} {C : σ → α → Prop}
    {R : σ → τ → Prop} (h₀ : R s₀ t₀)
    (hquiet : ∀ s a s' t, R s t → C s a → step s a = some s' → see (s, a) = none → R s' t)
    (hshown : ∀ s a s' t b, R s t → C s a → step s a = some s' → see (s, a) = some b →
      ∃ t', step' t b = some t' ∧ R s' t') {tr s} (h : Run step s₀ tr s) (hC : EveryStep C tr) :
    ∃ tr' t, Run step' t₀ tr' t ∧ tr'.map Prod.snd = tr.filterMap see ∧ R s t := by
  induction h with
  | nil => exact ⟨[], t₀, .nil, rfl, h₀⟩
  | @snoc tr s a s' _ hs ih =>
      obtain ⟨hC, hCa⟩ := everyStep_snoc.mp hC
      obtain ⟨tr', t, hr, hlabels, hR⟩ := ih hC
      cases hsee : see (s, a) with
      | none =>
          have hR' := hquiet _ _ _ _ hR hCa hs hsee
          exact ⟨tr', t, hr, by simp [hlabels, hsee], hR'⟩
      | some b =>
          obtain ⟨t', ht', hR'⟩ := hshown _ _ _ _ _ hR hCa hs hsee
          exact ⟨tr' ++ [(t, b)], t', .snoc hr ht', by simp [hlabels, hsee], hR'⟩

/-! ## Machines that answer -/

/-- The answers of a machine to some requests, one after the other, and the state it is left in. -/
def answers {β : Type*} (step : σ → α → β × σ) : σ → List α → List β × σ
  | s, [] => ([], s)
  | s, a :: as =>
      let (b, s₁) := step s a
      let (bs, s₂) := answers step s₁ as
      (b :: bs, s₂)

/-- The simulation rule for answers: where one machine answers each request as another one does, up to `f`, it
answers all of them so. -/
theorem answers_simulated {τ β γ : Type*} {step : σ → α → γ × σ} {step' : τ → α → β × τ} {R : σ → τ → Prop}
    {f : β → γ} {as : List α}
    (hstep : ∀ a ∈ as, ∀ s t, R s t → (step s a).1 = f (step' t a).1 ∧ R (step s a).2 (step' t a).2) {s : σ} {t : τ}
    (h : R s t) :
    (answers step s as).1 = (answers step' t as).1.map f ∧ R (answers step s as).2 (answers step' t as).2 := by
  induction as generalizing s t with
  | nil => exact ⟨rfl, h⟩
  | cons a as ih =>
      obtain ⟨hanswer, hR⟩ := hstep a List.mem_cons_self s t h
      obtain ⟨hanswers, hR'⟩ := ih (fun b hb => hstep b (List.mem_cons_of_mem a hb)) hR
      exact ⟨congrArg₂ List.cons hanswer hanswers, hR'⟩

end DromozoaFuse.Base
