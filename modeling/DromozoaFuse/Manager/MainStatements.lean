import DromozoaFuse.Base.Monitor
import DromozoaFuse.Manager.Lemmas.MainInvariants

/-!
# `state_manager_main`, statement by statement

The same manager with single statements for steps, every use of the mutex among them.
-/

namespace DromozoaFuse.Manager.Main

open Base Base.Monitor

/-- What a caller has between its calls. What it closes is what `open()` returned to it. -/
inductive Outside
  | out
  | holding (state : Option Nat)
  deriving DecidableEq, Repr

/-- The statements of `open()` and `close()`, with the local variables that are alive there. -/
inductive Point
  | open_test
  | open_copy
  | open_clear (state : Option Nat)
  | open_return (state : Option Nat)
  | close_assign (state : Option Nat)
  | close_notify
  | close_return
  deriving DecidableEq, Repr

def statements : Monitor (Option Nat) Unit Point Outside Empty where
  calls
    | .out => some .open_test
    | .holding state => some (.close_assign state)
  stmt
    | .open_test, state_ => if state_ = none then .wait .open_test else .go state_ .open_copy
    | .open_copy, state_ => .go state_ (.open_clear state_)
    | .open_clear state, _ => .go none (.open_return state)
    | .open_return state, _ => .unlock (.holding state)
    | .close_assign state, _ => .go state .close_notify
    | .close_notify, _ => .signal .close_return
    | .close_return, _ => .unlock .out
  outer b := nomatch b

/-! ## The critical sections -/

theorem section_return {state s s' : Option Nat} {n : Nat} {r : Rest Point Outside} :
    Section statements (.open_return state) s n s' r ↔ n = 0 ∧ s' = s ∧ r = .outside (.holding state) :=
  section_unlock rfl

theorem section_clear {state s s' : Option Nat} {n : Nat} {r : Rest Point Outside} :
    Section statements (.open_clear state) s n s' r ↔ n = 0 ∧ s' = none ∧ r = .outside (.holding state) := by
  rw [section_go rfl, section_return]

theorem section_open_none {s' : Option Nat} {n : Nat} {r : Rest Point Outside} :
    Section statements .open_test none n s' r ↔ n = 0 ∧ s' = none ∧ r = .waiting .parked .open_test :=
  section_wait rfl

theorem section_open_some {state : Nat} {s' : Option Nat} {n : Nat} {r : Rest Point Outside} :
    Section statements .open_test (some state) n s' r ↔
      n = 0 ∧ s' = none ∧ r = .outside (.holding (some state)) := by
  rw [section_go rfl, section_go rfl, section_clear]

theorem section_notify {s s' : Option Nat} {n : Nat} {r : Rest Point Outside} :
    Section statements .close_notify s n s' r ↔ n = 1 ∧ s' = s ∧ r = .outside .out := by
  rw [section_signal rfl]
  constructor
  · rintro ⟨i, rfl, h⟩
    obtain ⟨rfl, rfl, rfl⟩ := (section_unlock rfl).mp h
    exact ⟨rfl, rfl, rfl⟩
  · rintro ⟨rfl, rfl, rfl⟩
    exact ⟨0, rfl, (section_unlock rfl).mpr ⟨rfl, rfl, rfl⟩⟩

theorem section_close {state s s' : Option Nat} {n : Nat} {r : Rest Point Outside} :
    Section statements (.close_assign state) s n s' r ↔ n = 1 ∧ s' = state ∧ r = .outside .out := by
  rw [section_go rfl, section_notify]

/-- Where a passage through `open()` can be. -/
theorem within_open {s s' : Option Nat} {n : Nat} {k : Point} (h : Within statements .open_test s n k s') :
    k = .open_test ∧ s' = s ∨
      s ≠ none ∧ ((k = .open_copy ∨ k = .open_clear s) ∧ s' = s ∨ k = .open_return s ∧ s' = none) := by
  induction h with
  | start => exact Or.inl ⟨rfl, rfl⟩
  | @go n k₁ s₁ k₂ s₂ _ hstmt ih =>
      rcases ih with ⟨rfl, rfl⟩ | ⟨hs, ⟨rfl | rfl, rfl⟩ | ⟨rfl, rfl⟩⟩
      · cases s₁ with
        | none => cases hstmt
        | some state =>
            cases hstmt
            exact Or.inr ⟨by simp, Or.inl ⟨Or.inl rfl, rfl⟩⟩
      · cases hstmt
        exact Or.inr ⟨hs, Or.inl ⟨Or.inr rfl, rfl⟩⟩
      · cases hstmt
        exact Or.inr ⟨hs, Or.inr ⟨rfl, rfl⟩⟩
      · cases hstmt
  | @signal n k₁ s₁ k₂ _ hstmt ih =>
      rcases ih with ⟨rfl, rfl⟩ | ⟨-, ⟨rfl | rfl, rfl⟩ | ⟨rfl, rfl⟩⟩
      · cases s₁ <;> cases hstmt
      all_goals cases hstmt

theorem within_close {state s s' : Option Nat} {n : Nat} {k : Point}
    (h : Within statements (.close_assign state) s n k s') :
    k = .close_assign state ∧ s' = s ∨ (k = .close_notify ∨ k = .close_return) ∧ s' = state := by
  induction h with
  | start => exact Or.inl ⟨rfl, rfl⟩
  | go _ hstmt ih => rcases ih with ⟨rfl, rfl⟩ | ⟨rfl | rfl, rfl⟩ <;> simp_all [statements]
  | signal _ hstmt ih => rcases ih with ⟨rfl, rfl⟩ | ⟨rfl | rfl, rfl⟩ <;> simp_all [statements]

/-! ## What a configuration shows -/

def Phase.rest : Phase → Rest Point Outside
  | .out => .outside .out
  | .waiting w => .waiting w .open_test
  | .holding state => .outside (.holding (some state))

variable {T : Type*}

def Config.view (c : Config T) : View T (Option Nat) Unit Point Outside := ⟨c.state_, (), fun t => (c.phase t).rest⟩

@[simp] theorem view_shared (c : Config T) : c.view.shared = c.state_ := rfl

@[simp] theorem view_env (c : Config T) : c.view.env = () := rfl

@[simp] theorem view_rest (c : Config T) : c.view.rest = fun t => (c.phase t).rest := rfl

theorem Phase.rest_injective : Function.Injective Phase.rest := by
  intro ph ph' h
  cases ph <;> cases ph' <;> simp_all [rest]

theorem Config.view_injective : Function.Injective (view : Config T → _) := by
  rintro ⟨state_, phase⟩ ⟨state_', phase'⟩ h
  simp only [view, View.mk.injEq, true_and] at h
  obtain ⟨rfl, h⟩ := h
  congr
  funext t
  exact Phase.rest_injective (congrFun h t)

theorem rest_eq_parked {ph : Phase} {k : Point} :
    ph.rest = .waiting .parked k ↔ ph = .waiting .parked ∧ k = .open_test := by
  cases ph <;> simp [Phase.rest, eq_comm]

variable [DecidableEq T]

theorem rest_update (phase : T → Phase) (t : T) (ph : Phase) :
    (fun u => (Function.update phase t ph u).rest) = Function.update (fun u => (phase u).rest) t ph.rest := by
  funext u
  by_cases hu : u = t
  · subst hu
    simp
  · simp [Function.update_of_ne hu]

@[simp] theorem move_state (c : Config T) (t : T) (ph : Phase) : (c.move t ph).state_ = c.state_ := rfl

@[simp] theorem view_move (c : Config T) (t : T) (ph : Phase) :
    (c.move t ph).view = ⟨c.state_, (), Function.update c.view.rest t ph.rest⟩ := by
  simp only [Config.view, Config.move, rest_update]

/-- A passage through `open()`. -/
theorem enter_atomic {c : Config T} {t : T} (ht : (c.phase t).rest.entry statements = some .open_test) :
    statements.Atomic c.view (c.enter t).view := by
  cases hs : c.state_ with
  | none =>
      have hsection : Section statements .open_test c.view.shared 0 none (.waiting .parked .open_test) := by
        rw [Config.view, hs, section_open_none]
        exact ⟨rfl, rfl, rfl⟩
      simpa [Config.enter, hs, Phase.rest] using Atomic.enter ht hsection .zero
  | some state =>
      have hsection : Section statements .open_test c.view.shared 0 none (.outside (.holding (some state))) := by
        rw [Config.view, hs, section_open_some]
        exact ⟨rfl, rfl, rfl⟩
      simpa [Config.enter, hs, Phase.rest] using Atomic.enter ht hsection .zero

variable [Fintype T]

theorem view_sound (c : Config T) (a : Act T) (c' : Config T) (h : step c a = some c') :
    statements.Atomic c.view c'.view := by
  cases a with
  | «open» t =>
      simp only [step, Option.ite_none_right_eq_some, Option.some.injEq] at h
      obtain ⟨ht, rfl⟩ := h
      exact enter_atomic (by rw [ht]; rfl)
  | wake t =>
      simp only [step, Option.ite_none_right_eq_some, Option.some.injEq] at h
      obtain ⟨ht, rfl⟩ := h
      simpa [Phase.rest] using Atomic.wake (m := statements) (v := c.view) (rest_eq_parked.mpr ⟨ht, rfl⟩)
  | resume t =>
      simp only [step, Option.ite_none_right_eq_some, Option.some.injEq] at h
      obtain ⟨ht, rfl⟩ := h
      exact enter_atomic (by rcases ht with ht | ht <;> rw [ht] <;> rfl)
  | close t signalled =>
      cases step_trans h with
      | @signal _ u state ht hu hne =>
          have hentry : (c.view.rest t).entry statements = some (.close_assign (some state)) := by
            simp [Config.view, ht, Phase.rest, Rest.entry, statements]
          have hatomic := Atomic.enter hentry (section_close.mpr ⟨rfl, rfl, rfl⟩)
            (.succ .zero (.some (rest_eq_parked.mpr ⟨hu, rfl⟩)))
          rw [Function.update_comm hne] at hatomic
          simpa [Phase.rest] using hatomic
      | @close _ state ht hnone =>
          have hentry : (c.view.rest t).entry statements = some (.close_assign (some state)) := by
            simp [Config.view, ht, Phase.rest, Rest.entry, statements]
          have hatomic := Atomic.enter hentry (section_close.mpr ⟨rfl, rfl, rfl⟩)
            (.succ .zero (.none fun u k hu => hnone u (rest_eq_parked.mp hu).1))
          simpa [Phase.rest] using hatomic
      | enter ha _ => rcases ha with ha | ha <;> cases ha

omit [Fintype T] in
theorem enter_complete {c : Config T} {t : T} {n : Nat} {s : Option Nat} {r : Rest Point Outside}
    {rest : T → Rest Point Outside} (hsection : Section statements .open_test c.state_ n s r)
    (hsignals : Signals n c.view.rest rest) : (c.enter t).view = ⟨s, (), Function.update rest t r⟩ := by
  cases hs : c.state_ with
  | none =>
      rw [hs] at hsection
      obtain ⟨rfl, rfl, rfl⟩ := section_open_none.mp hsection
      cases hsignals
      simp [Config.enter, hs, Phase.rest]
  | some state =>
      rw [hs] at hsection
      obtain ⟨rfl, rfl, rfl⟩ := section_open_some.mp hsection
      cases hsignals
      simp [Config.enter, hs, Phase.rest]

theorem view_complete (c : Config T) (v : View T (Option Nat) Unit Point Outside) (h : statements.Atomic c.view v) :
    ∃ a c', step c a = some c' ∧ c'.view = v := by
  cases h with
  | @enter t k n s r rest hentry hsection hsignals =>
      cases hph : c.phase t with
      | out =>
          obtain rfl : .open_test = k := by simpa [hph, Phase.rest, Rest.entry, statements] using hentry
          exact ⟨.open t, c.enter t, by simp [step, hph], enter_complete hsection hsignals⟩
      | waiting w =>
          have hw : w ≠ .parked := by
            rintro rfl
            simp [hph, Phase.rest, Rest.entry] at hentry
          obtain rfl : .open_test = k := by
            cases w <;> simp_all [Phase.rest, Rest.entry]
          refine ⟨.resume t, c.enter t, ?_, enter_complete hsection hsignals⟩
          cases w <;> simp_all [step]
      | holding state =>
          obtain rfl : .close_assign (some state) = k := by
            simpa [hph, Phase.rest, Rest.entry, statements] using hentry
          obtain ⟨rfl, rfl, rfl⟩ := section_close.mp hsection
          obtain ⟨rest₁, hfirst, hzero⟩ := hsignals.head
          cases hzero
          cases hfirst with
          | @some u k hu =>
              obtain ⟨hparked, rfl⟩ := rest_eq_parked.mp hu
              have hne : u ≠ t := by
                rintro rfl
                rw [hph] at hparked
                cases hparked
              refine ⟨.close t (some u), _, by simp only [step, hph, hparked, if_true]; rfl, ?_⟩
              rw [Function.update_comm hne]
              simp [Phase.rest]
          | none hnone =>
              have hparked : ∀ u, c.phase u ≠ .waiting .parked := fun u hu =>
                hnone u .open_test (rest_eq_parked.mpr ⟨hu, rfl⟩)
              refine ⟨.close t none, Config.move { c with state_ := some state } t .out, ?_, ?_⟩
              · simp only [step, hph]
                rw [if_pos hparked]
              · simp [Phase.rest]
  | @wake t k ht =>
      obtain ⟨hparked, rfl⟩ := rest_eq_parked.mp ht
      exact ⟨.wake t, c.move t (.waiting .spurious), by simp [step, hparked], by simp [Phase.rest]⟩
  | @outer t r b => exact b.elim

theorem models : statements.Models step (Config.view : Config T → _) := ⟨view_sound, view_complete⟩

/-! ## The manager at every statement -/

/-- What single statements reach while the mutex is free is what whole critical sections reach. -/
theorem main_statements_exact (state : Nat) (c : Config T) :
    (∃ f, Reachable statements.step (Config.init state : Config T).view.config f ∧ f.owner = none ∧
      f.shared = c.state_ ∧ ∀ t, (f.place t).rest? = some (c.phase t).rest) ↔
      Reachable step (Config.init state) c := by
  constructor
  · rintro ⟨f, hf, howner, hshared, hrest⟩
    obtain ⟨c', hc', htracks⟩ := models.refines hf
    obtain ⟨hshared', hrest'⟩ := htracks.of_free howner
    obtain rfl : c = c' := by
      refine Config.view_injective (View.ext (hshared.symm.trans hshared') rfl (funext fun t => ?_))
      exact Option.some.inj ((hrest t).symm.trans (hrest' t))
    exact hc'
  · exact fun h => ⟨c.view.config, models.realizes h, rfl, rfl, fun t => Rest.place_rest? _⟩

/-- The state that a caller has got and has not given back yet. -/
def has : Place Point Outside → Option Nat
  | .outside (.holding state) | .locking (.holding state) => state
  | .inside (.open_return state) | .inside (.close_assign state) => state
  | _ => none

omit [Fintype T] [DecidableEq T] in
theorem has_of_rest? {pl : Place Point Outside} {ph : Phase} (h : pl.rest? = some ph.rest) (s : Nat) :
    has pl = some s ↔ ph = .holding s := by
  cases ph <;> cases pl <;> simp_all [Phase.rest, Place.rest?, has]

omit [Fintype T] in
/-- Before and after a signal a caller has got nothing. -/
theorem has_of_signals {n : Nat} {c : Config T} {rest : T → Rest Point Outside} (h : Signals n c.view.rest rest)
    {pl : Place Point Outside} {u : T} (hpl : pl.rest? = some (rest u)) (s : Nat) :
    has pl = some s ↔ c.phase u = .holding s := by
  rcases h.cases_at u with heq | ⟨k, hparked, hsignalled⟩
  · exact has_of_rest? (hpl.trans (congrArg some heq)) s
  · rw [(rest_eq_parked.mp hparked).1]
    rw [hsignalled] at hpl
    cases pl <;> simp_all [Place.rest?, has]

/-- Either nobody has got the state, and it is in `state_`, or one caller has. -/
def OneHas (state : Nat) (f : Monitor.Config T (Option Nat) Unit Point Outside) : Prop :=
  ∃ owner : Option T, f.shared = (if owner = none then some state else none) ∧
    ∀ t s, has (f.place t) = some s ↔ owner = some t ∧ s = state

/-- Where a passage starts, and whether the caller comes with the state. -/
theorem entry_cases {ph : Phase} {k : Point} (h : ph.rest.entry statements = some k) :
    k = .open_test ∧ (∀ s, ph ≠ .holding s) ∨ ∃ s, ph = .holding s ∧ k = .close_assign (some s) := by
  cases ph with
  | out => exact Or.inl ⟨(Option.some.inj h).symm, by simp⟩
  | waiting w =>
      refine Or.inl ⟨?_, by simp⟩
      cases w <;> simp_all [Phase.rest, Rest.entry]
  | holding s => exact Or.inr ⟨s, rfl, (Option.some.inj h).symm⟩

omit [Fintype T] in
theorem oneHas_of_tracks {state : Nat} {c : Config T} (hc : Owned state c)
    {f : Monitor.Config T (Option Nat) Unit Point Outside} (h : Tracks statements f c.view) : OneHas state f := by
  obtain ⟨owner, hstate, hphase⟩ := hc
  cases h with
  | free _ hshared _ hrest =>
      exact ⟨owner, hshared.trans hstate, fun t s => (has_of_rest? (hrest t) s).trans (hphase t s)⟩
  | @busy t k₀ k n rest howner hinside _ hentry hwithin hsignals hrest =>
      have hothers : ∀ u, u ≠ t → ∀ s, has (f.place u) = some s ↔ owner = some u ∧ s = state := fun u hu s =>
        (has_of_signals hsignals (hrest u hu) s).trans (hphase u s)
      -- only the caller inside can have changed hands
      have hmoved : ∀ owner' : Option T, f.shared = (if owner' = none then some state else none) →
          (∀ s, has (.inside k) = some s ↔ owner' = some t ∧ s = state) →
          (∀ u, u ≠ t → (owner' = some u ↔ owner = some u)) → OneHas state f := by
        intro owner' hshared hat hsame
        refine ⟨owner', hshared, fun u s => ?_⟩
        by_cases hu : u = t
        · subst hu
          rw [hinside]
          exact hat s
        · rw [hothers u hu, hsame u hu]
      rcases entry_cases hentry with ⟨rfl, hnot⟩ | ⟨s, hs, rfl⟩
      · have hnott : owner ≠ some t := fun ht => hnot state ((hphase t state).mpr ⟨ht, rfl⟩)
        rcases within_open hwithin with ⟨rfl, hshared⟩ | ⟨hsome, ⟨hk, hshared⟩ | ⟨rfl, hshared⟩⟩
        · exact hmoved owner (hshared.trans hstate) (by simp [has, hnott]) fun _ _ => Iff.rfl
        all_goals
          obtain rfl : owner = none := by
            by_contra howned
            exact hsome (hstate.trans (if_neg howned))
        · exact hmoved none (hshared.trans hstate) (by rcases hk with rfl | rfl <;> simp [has]) fun _ _ => Iff.rfl
        · refine hmoved (some t) hshared (fun s => ?_) fun u hu => by simp [hu.symm]
          simp [has, hstate, eq_comm]
      · obtain ⟨rfl, rfl⟩ := (hphase t s).mp hs
        rcases within_close hwithin with ⟨rfl, hshared⟩ | ⟨hk, hshared⟩
        · exact hmoved (some t) (hshared.trans hstate) (by simp [has, eq_comm]) fun _ _ => Iff.rfl
        · exact hmoved none hshared (by rcases hk with rfl | rfl <;> simp [has]) fun u hu => by simp [hu.symm]

/-- Whatever the order of the statements, the mutex reports no error and is held by the caller inside; the state is
in `state_` or with one caller, and no caller gets a null pointer. Where the mutex is free, the state back and a
caller parked, another one has been signalled. -/
theorem main_statement_ownership {state : Nat} {f : Monitor.Config T (Option Nat) Unit Point Outside}
    (h : Reachable statements.step (Config.init state : Config T).view.config f) :
    (∀ t, f.place t ≠ .failed) ∧ (∀ t, f.owner = some t ↔ ∃ k, f.place t = .inside k) ∧ OneHas state f ∧
      (∀ t, f.place t ≠ .outside (.holding none)) ∧
      (f.owner = none → f.shared ≠ none → (∃ t k, f.place t = .waiting .parked k) →
        ∃ t k, f.place t = .waiting .signalled k) := by
  obtain ⟨c, hc, htracks⟩ := models.refines h
  obtain ⟨howned, hwoken⟩ := mainInv_reachable hc
  refine ⟨htracks.not_failed, htracks.owner_iff, oneHas_of_tracks howned htracks, fun t ht => ?_, ?_⟩
  · have hrest : (c.phase t).rest = .outside (.holding none) := htracks.rest_eq (by rw [ht]; rfl) (by simp)
    cases hph : c.phase t <;> simp [hph, Phase.rest] at hrest
  · rintro howner hshared ⟨t, k, ht⟩
    obtain ⟨hshared', hrest⟩ := htracks.of_free howner
    have hparked : (c.phase t).rest = .waiting .parked k := htracks.rest_eq (by rw [ht]; rfl) (by simp)
    have hback : c.state_ ≠ none := fun hnone => hshared (hshared'.trans hnone)
    obtain ⟨u, hu⟩ := noLostWakeup_iff.mp hwoken ⟨t, (rest_eq_parked.mp hparked).1⟩ hback
    refine ⟨u, .open_test, ?_⟩
    have hu' := hrest u
    simp only [view_rest, hu, Phase.rest] at hu'
    generalize f.place u = pl at hu'
    cases pl <;> simp_all [Place.rest?]

/-- The first of three callers has given the state back, and the two others have parked before. -/
theorem main_statement_ownership_signalled : ∃ f : Monitor.Config (Fin 3) (Option Nat) Unit Point Outside,
    Reachable statements.step (Config.init 5 : Config (Fin 3)).view.config f ∧ f.shared = some 5 ∧
      f.place 2 = .waiting .parked .open_test ∧ OneHas 5 f ∧ ∃ t k, f.place t = .waiting .signalled k := by
  have h : Run step (Config.init 5) _ _ :=
    run_of_exec [Act.open 0, .open 1, .open 2, .close (0 : Fin 3) (some 1)] rfl
  obtain ⟨-, -, hone, -, hwoken⟩ := main_statement_ownership (models.realizes ⟨_, h⟩)
  exact ⟨_, models.realizes ⟨_, h⟩, rfl, rfl, hone, hwoken rfl (Option.some_ne_none 5) ⟨2, _, rfl⟩⟩

end DromozoaFuse.Manager.Main
