import DromozoaFuse.Base.Monitor
import DromozoaFuse.Manager.Theorems

/-!
# `state_manager_pool`, statement by statement

The same manager with single statements for steps, every use of the mutex among them. `construct()` and the
destructors of `open()` and `close()` that close a state run without it.
-/

namespace DromozoaFuse.Manager

open Base Base.Monitor

/-- What a caller has between its critical sections. -/
inductive Outside
  | out
  | constructing
  | holding (state : Nat)
  | discarding (state : Nat)
  deriving DecidableEq, Repr

/-- The statements under the mutex, with what the `scoped_state` there has. -/
inductive Point
  | open_test
  | open_increment
  | open_check
  | open_pop (state : Nat)
  | open_return (state : Nat)
  | close_decrement (state : Nat)
  | close_check (state : Nat)
  | close_push (state : Nat)
  | close_release
  deriving DecidableEq, Repr

/-- What a caller does without the mutex. -/
inductive Work
  | construct
  | throw
  | lua_close
  deriving DecidableEq, Repr

variable (p : PoolParams)

def statements : Monitor Pool States Point Outside Work where
  calls
    | .out => some .open_test
    | .holding state => some (.close_decrement state)
    | _ => none
  stmt
    | .open_test, s => if s.waits p then .wait .open_test else .go s .open_increment
    | .open_increment, s => .go { s with active_states := size_inc s.active_states } .open_check
    | .open_check, s =>
        match s.idle_states with
        | front :: _ => .go s (.open_pop front)
        | [] => .unlock .constructing
    | .open_pop state, s => .go { s with idle_states := s.idle_states.tail } (.open_return state)
    | .open_return state, _ => .unlock (.holding state)
    | .close_decrement state, s => .go { s with active_states := size_dec s.active_states } (.close_check state)
    | .close_check state, s =>
        if s.idle_states.length < p.max_idle_states then .go s (.close_push state) else .unlock (.discarding state)
    | .close_push state, s => .go { s with idle_states := s.idle_states ++ [state] } .close_release
    | .close_release, _ => .unlock .out
  outer
    | .construct, l, .constructing => some (⟨l.created + 1, l.closed⟩, .holding l.created)
    | .throw, l, .constructing => some (l, .out)
    | .lua_close, l, .discarding state => some (⟨l.created, state :: l.closed⟩, .out)
    | _, _, _ => none

variable {p}

/-! ## The critical sections -/

def Opened.rest : Opened → Rest Point Outside
  | .wait => .waiting .parked .open_test
  | .idle state => .outside (.holding state)
  | .construct => .outside .constructing

theorem section_open {s s' : Pool} {n : Nat} {r : Rest Point Outside} :
    Section (statements p) .open_test s n s' r ↔ n = 0 ∧ s' = (s.open p).2 ∧ r = (s.open p).1.rest := by
  by_cases hw : s.waits p
  · have hopen : s.open p = (.wait, s) := if_pos hw
    rw [hopen]
    exact section_wait (if_pos hw)
  · rw [section_go (if_neg hw), section_go rfl]
    cases hi : s.idle_states with
    | nil =>
        have hopen : s.open p = (.construct, ⟨size_inc s.active_states, []⟩) := by
          simp [Pool.open, hw, hi]
        rw [hopen]
        exact section_unlock rfl
    | cons front rest =>
        have hopen : s.open p = (.idle front, ⟨size_inc s.active_states, rest⟩) := by
          simp [Pool.open, hw, hi]
        rw [hopen, section_go rfl, section_go rfl]
        exact section_unlock rfl

theorem section_close {s s' : Pool} {state n : Nat} {r : Rest Point Outside} :
    Section (statements p) (.close_decrement state) s n s' r ↔
      n = 0 ∧ s' = (s.close p state).2 ∧
        r = .outside (if (s.close p state).1 then .out else .discarding state) := by
  rw [section_go rfl]
  by_cases hlt : s.idle_states.length < p.max_idle_states
  · have hclose : s.close p state = (true, ⟨size_dec s.active_states, s.idle_states ++ [state]⟩) := if_pos hlt
    rw [hclose, section_go (if_pos hlt), section_go rfl]
    exact section_unlock rfl
  · have hclose : s.close p state = (false, ⟨size_dec s.active_states, s.idle_states⟩) := if_neg hlt
    rw [hclose]
    exact section_unlock (if_neg hlt)

/-- Where a passage through `open()` can be. -/
theorem within_open {s s' : Pool} {n : Nat} {k : Point} (h : Within (statements p) .open_test s n k s') :
    n = 0 ∧ ((k = .open_test ∨ k = .open_increment ∨ k = .open_check) ∧ s'.idle_states = s.idle_states ∨
      ∃ front rest, s.idle_states = front :: rest ∧
        (k = .open_pop front ∧ s'.idle_states = front :: rest ∨ k = .open_return front ∧ s'.idle_states = rest)) := by
  induction h with
  | start => exact ⟨rfl, Or.inl ⟨Or.inl rfl, rfl⟩⟩
  | @go n k₁ s₁ k₂ s₂ _ hstmt ih =>
      obtain ⟨rfl, ⟨rfl | rfl | rfl, hi⟩ | ⟨front, rest, hi, ⟨rfl, hi'⟩ | ⟨rfl, hi'⟩⟩⟩ := ih
      · simp only [statements] at hstmt
        split at hstmt
        · cases hstmt
        · cases hstmt
          exact ⟨rfl, Or.inl ⟨Or.inr (Or.inl rfl), hi⟩⟩
      · cases hstmt
        exact ⟨rfl, Or.inl ⟨Or.inr (Or.inr rfl), hi⟩⟩
      · simp only [statements] at hstmt
        split at hstmt
        · rename_i front rest hcons
          cases hstmt
          exact ⟨rfl, Or.inr ⟨front, rest, hi.symm.trans hcons, Or.inl ⟨rfl, hcons⟩⟩⟩
        · cases hstmt
      · cases hstmt
        exact ⟨rfl, Or.inr ⟨front, rest, hi, Or.inr ⟨rfl, by simp [hi']⟩⟩⟩
      · cases hstmt
  | @signal n k₁ s₁ k₂ _ hstmt ih =>
      obtain ⟨rfl, ⟨rfl | rfl | rfl, hi⟩ | ⟨front, rest, hi, ⟨rfl, hi'⟩ | ⟨rfl, hi'⟩⟩⟩ := ih <;>
        simp only [statements] at hstmt <;> first | cases hstmt | (split at hstmt <;> cases hstmt)

theorem within_close {s s' : Pool} {state n : Nat} {k : Point}
    (h : Within (statements p) (.close_decrement state) s n k s') :
    n = 0 ∧ ((k = .close_decrement state ∨ k = .close_check state ∨ k = .close_push state) ∧
      s'.idle_states = s.idle_states ∨ k = .close_release ∧ s'.idle_states = s.idle_states ++ [state]) := by
  induction h with
  | start => exact ⟨rfl, Or.inl ⟨Or.inl rfl, rfl⟩⟩
  | @go n k₁ s₁ k₂ s₂ _ hstmt ih =>
      obtain ⟨rfl, ⟨rfl | rfl | rfl, hi⟩ | ⟨rfl, hi⟩⟩ := ih
      · simp only [statements, Effect.go.injEq] at hstmt
        obtain ⟨rfl, rfl⟩ := hstmt
        exact ⟨rfl, Or.inl ⟨Or.inr (Or.inl rfl), hi⟩⟩
      · simp only [statements] at hstmt
        split at hstmt
        · cases hstmt
          exact ⟨rfl, Or.inl ⟨Or.inr (Or.inr rfl), hi⟩⟩
        · cases hstmt
      · cases hstmt
        exact ⟨rfl, Or.inr ⟨rfl, by simp [hi]⟩⟩
      · cases hstmt
  | @signal n k₁ s₁ k₂ _ hstmt ih =>
      obtain ⟨rfl, ⟨rfl | rfl | rfl, hi⟩ | ⟨rfl, hi⟩⟩ := ih <;>
        simp only [statements] at hstmt <;> first | cases hstmt | (split at hstmt <;> cases hstmt)

/-! ## What a configuration shows -/

def Phase.rest : Phase → Rest Point Outside
  | .out => .outside .out
  | .waiting w => .waiting w .open_test
  | .constructing => .outside .constructing
  | .holding state => .outside (.holding state)
  | .discarding state => .outside (.discarding state)

variable {T : Type*}

def Config.view (c : Config T) : View T Pool States Point Outside :=
  ⟨c.pool, ⟨c.created, c.closed⟩, fun t => (c.phase t).rest⟩

@[simp] theorem view_shared (c : Config T) : c.view.shared = c.pool := rfl

@[simp] theorem view_env (c : Config T) : c.view.env = ⟨c.created, c.closed⟩ := rfl

@[simp] theorem view_rest (c : Config T) : c.view.rest = fun t => (c.phase t).rest := rfl

theorem Phase.rest_injective : Function.Injective Phase.rest := by
  intro ph ph' h
  cases ph <;> cases ph' <;> simp_all [rest]

theorem Config.view_injective : Function.Injective (view : Config T → _) := by
  rintro ⟨pool, phase, created, closed⟩ ⟨pool', phase', created', closed'⟩ h
  simp only [view, View.mk.injEq, States.mk.injEq] at h
  obtain ⟨rfl, ⟨rfl, rfl⟩, h⟩ := h
  congr
  funext t
  exact Phase.rest_injective (congrFun h t)

theorem rest_eq_waiting {ph : Phase} {w : Wait} {k : Point} :
    ph.rest = .waiting w k ↔ ph = .waiting w ∧ k = .open_test := by
  cases ph <;> simp [Phase.rest, eq_comm]

theorem rest_eq_outside {ph : Phase} {r : Outside} : ph.rest = .outside r ↔
    match r with
    | .out => ph = .out
    | .constructing => ph = .constructing
    | .holding state => ph = .holding state
    | .discarding state => ph = .discarding state := by
  cases ph <;> cases r <;> simp [Phase.rest]

variable [DecidableEq T]

theorem view_move (c : Config T) (t : T) (ph : Phase) :
    (c.move t ph).view = ⟨c.pool, ⟨c.created, c.closed⟩, Function.update c.view.rest t ph.rest⟩ :=
  View.ext rfl rfl (Function.comp_update Phase.rest c.phase t ph)

theorem view_enter (c : Config T) (t : T) :
    (c.enter p t).view =
      ⟨(c.pool.open p).2, ⟨c.created, c.closed⟩, Function.update c.view.rest t (c.pool.open p).1.rest⟩ := by
  unfold Config.enter
  by_cases hw : c.pool.waits p
  · have hopen : c.pool.open p = (.wait, c.pool) := if_pos hw
    rw [hopen]
    exact view_move ..
  · cases hi : c.pool.idle_states with
    | nil =>
        have hopen : c.pool.open p = (.construct, ⟨size_inc c.pool.active_states, []⟩) := by
          simp [Pool.open, hw, hi]
        rw [hopen]
        exact view_move ..
    | cons front rest =>
        have hopen : c.pool.open p = (.idle front, ⟨size_inc c.pool.active_states, rest⟩) := by
          simp [Pool.open, hw, hi]
        rw [hopen]
        exact view_move ..

theorem enter_atomic {c : Config T} {t : T} (ht : (c.phase t).MayEnter) :
    (statements p).Atomic c.view (c.enter p t).view := by
  have hentry : (c.view.rest t).entry (statements p) = some .open_test := by
    rcases ht with ht | ht | ht <;> simp [ht, Phase.rest, Rest.entry, statements]
  rw [view_enter]
  exact .enter hentry (section_open.mpr ⟨rfl, rfl, rfl⟩) .zero

theorem view_sound (c : Config T) (a : Act T) (c' : Config T) (h : step p c a = some c') :
    (statements p).Atomic c.view c'.view := by
  cases a with
  | «open» t =>
      simp only [step, Option.ite_none_right_eq_some, Option.some.injEq] at h
      obtain ⟨ht, rfl⟩ := h
      exact enter_atomic (Or.inl ht)
  | wake t =>
      simp only [step, Option.ite_none_right_eq_some, Option.some.injEq] at h
      obtain ⟨ht, rfl⟩ := h
      rw [view_move]
      exact .wake (rest_eq_waiting.mpr ⟨ht, rfl⟩)
  | resume t =>
      simp only [step, Option.ite_none_right_eq_some, Option.some.injEq] at h
      obtain ⟨ht, rfl⟩ := h
      exact enter_atomic (Or.inr ht)
  | construct t =>
      simp only [step, Option.ite_none_right_eq_some, Option.some.injEq] at h
      obtain ⟨ht, rfl⟩ := h
      rw [view_move]
      exact .outer (b := .construct) (r := .constructing) (rest_eq_outside.mpr ht) rfl
  | throw t =>
      simp only [step, Option.ite_none_right_eq_some, Option.some.injEq] at h
      obtain ⟨ht, rfl⟩ := h
      rw [view_move]
      exact .outer (b := .throw) (r := .constructing) (rest_eq_outside.mpr ht) rfl
  | close t =>
      cases ht : c.phase t with
      | holding state =>
          rw [step_close ht] at h
          cases h
          have hentry : (c.view.rest t).entry (statements p) = some (.close_decrement state) := by
            simp [ht, Phase.rest, Rest.entry, statements]
          rw [view_move, apply_ite Phase.rest]
          refine .enter hentry (section_close.mpr ⟨rfl, rfl, ?_⟩) .zero
          rw [apply_ite Rest.outside]
          rfl
      | _ => simp [step, ht] at h
  | lua_close t =>
      cases ht : c.phase t with
      | discarding state =>
          simp only [step, ht, Option.some.injEq] at h
          subst h
          rw [view_move]
          exact .outer (b := .lua_close) (r := .discarding state) (rest_eq_outside.mpr ht) rfl
      | _ => simp [step, ht] at h

theorem view_complete (c : Config T) (v : View T Pool States Point Outside) (h : (statements p).Atomic c.view v) :
    ∃ a c', step p c a = some c' ∧ c'.view = v := by
  cases h with
  | @enter t k n s r rest hentry hsection hsignals =>
      cases hph : c.phase t with
      | out =>
          obtain rfl : .open_test = k := by simpa [hph, Phase.rest, Rest.entry, statements] using hentry
          obtain ⟨rfl, rfl, rfl⟩ := section_open.mp hsection
          cases hsignals
          exact ⟨.open t, c.enter p t, by simp [step, hph], view_enter c t⟩
      | waiting w =>
          have hw : w ≠ .parked := by
            rintro rfl
            simp [hph, Phase.rest, Rest.entry] at hentry
          obtain rfl : .open_test = k := by
            cases w <;> simp_all [Phase.rest, Rest.entry]
          obtain ⟨rfl, rfl, rfl⟩ := section_open.mp hsection
          cases hsignals
          refine ⟨.resume t, c.enter p t, ?_, view_enter c t⟩
          cases w <;> simp_all [step]
      | holding state =>
          obtain rfl : .close_decrement state = k := by
            simpa [hph, Phase.rest, Rest.entry, statements] using hentry
          obtain ⟨rfl, rfl, rfl⟩ := section_close.mp hsection
          cases hsignals
          refine ⟨.close t, _, step_close hph, ?_⟩
          rw [view_move, apply_ite Phase.rest, apply_ite Rest.outside]
          rfl
      | constructing => simp [hph, Phase.rest, Rest.entry, statements] at hentry
      | discarding state => simp [hph, Phase.rest, Rest.entry, statements] at hentry
  | @wake t k ht =>
      obtain ⟨hparked, rfl⟩ := rest_eq_waiting.mp ht
      exact ⟨.wake t, c.move t (.waiting .spurious), by simp [step, hparked], view_move ..⟩
  | @outer t r b env r' hr hb =>
      have ht := rest_eq_outside.mp hr
      cases b <;> cases r <;> simp only [statements, Option.some.injEq, Prod.mk.injEq, reduceCtorEq] at hb
      all_goals obtain ⟨rfl, rfl⟩ := hb
      · exact ⟨.construct t, _, if_pos ht, view_move ..⟩
      · exact ⟨.throw t, _, if_pos ht, view_move ..⟩
      · exact ⟨.lua_close t, _, by simp only [step, ht]; rfl, view_move ..⟩

theorem models (p : PoolParams) : (statements p).Models (step p) (Config.view : Config T → _) :=
  ⟨view_sound, view_complete⟩

/-! ## The pool at every statement -/

variable [Fintype T]

/-- What single statements reach while the mutex is free is what whole critical sections reach. -/
theorem pool_statements_exact (p : PoolParams) (c : Config T) :
    (∃ f, Reachable (statements p).step (Config.init p : Config T).view.config f ∧ f.owner = none ∧
      f.shared = c.pool ∧ f.env = ⟨c.created, c.closed⟩ ∧ ∀ t, (f.place t).rest? = some (c.phase t).rest) ↔
      Reachable (step p) (Config.init p) c := by
  constructor
  · rintro ⟨f, hf, howner, hshared, henv, hrest⟩
    obtain ⟨c', hc', htracks⟩ := (models p).refines hf
    obtain ⟨hshared', hrest'⟩ := htracks.of_free howner
    obtain rfl : c = c' := by
      refine Config.view_injective
        (View.ext (hshared.symm.trans hshared') (henv.symm.trans htracks.env_eq) (funext fun t => ?_))
      exact Option.some.inj ((hrest t).symm.trans (hrest' t))
    exact hc'
  · exact fun h => ⟨c.view.config, (models p).realizes h, rfl, rfl, rfl, fun t => Rest.place_rest? _⟩

/-! ## Where the states are

While a caller is inside, the states are where they were before it came: what it takes from the idle list, it
has, and what it puts there, it has no more. -/

def Outside.weigh (state discarded : Nat → Nat) (constructing : Nat) : Outside → Nat
  | .out => 0
  | .constructing => constructing
  | .holding s => state s
  | .discarding s => discarded s

/-- A passage through `open()` has a state once it has taken it from the list, one through `close()` until it has
put it there. -/
def Point.weigh (state : Nat → Nat) : Point → Nat
  | .open_return s | .close_decrement s | .close_check s | .close_push s => state s
  | _ => 0

def weigh (state discarded : Nat → Nat) (constructing : Nat) : Place Point Outside → Nat
  | .outside r | .locking r => r.weigh state discarded constructing
  | .inside k => k.weigh state
  | _ => 0

def Phase.weigh (state discarded : Nat → Nat) (constructing : Nat) : Phase → Nat
  | .constructing => constructing
  | .holding s => state s
  | .discarding s => discarded s
  | _ => 0

omit [DecidableEq T] [Fintype T] in
theorem weigh_of_rest? {state discarded : Nat → Nat} {constructing : Nat} {pl : Place Point Outside} {ph : Phase}
    (h : pl.rest? = some ph.rest) : weigh state discarded constructing pl = ph.weigh state discarded constructing := by
  cases ph <;> cases pl <;> simp_all [Phase.rest, Place.rest?, weigh, Phase.weigh, Outside.weigh]

/-- Where a passage starts, and whether the caller comes with a state. -/
theorem entry_cases {ph : Phase} {k : Point} (h : ph.rest.entry (statements p) = some k) :
    k = .open_test ∧ ph.MayEnter ∨ ∃ s, ph = .holding s ∧ k = .close_decrement s := by
  cases ph with
  | out => exact Or.inl ⟨(Option.some.inj h).symm, Or.inl rfl⟩
  | waiting w =>
      cases w with
      | parked => cases h
      | signalled => exact Or.inl ⟨(Option.some.inj h).symm, Or.inr (Or.inl rfl)⟩
      | spurious => exact Or.inl ⟨(Option.some.inj h).symm, Or.inr (Or.inr rfl)⟩
  | holding s => exact Or.inr ⟨s, rfl, (Option.some.inj h).symm⟩
  | constructing | discarding s => cases h

theorem weigh_of_mayEnter {state discarded : Nat → Nat} {constructing : Nat} {ph : Phase} (h : ph.MayEnter) :
    ph.weigh state discarded constructing = 0 := by
  rcases h with rfl | rfl | rfl <;> rfl

theorem weigh_of_tracks (state discarded : Nat → Nat) (constructing : Nat) (idle : List Nat → Nat)
    (hcons : ∀ s l, idle (s :: l) = state s + idle l) (hsnoc : ∀ s l, idle (l ++ [s]) = idle l + state s)
    {c : Config T} {f : Monitor.Config T Pool States Point Outside} (h : Tracks (statements p) f c.view) :
    idle f.shared.idle_states + tally (weigh state discarded constructing) f.place =
      idle c.pool.idle_states + tally (Phase.weigh state discarded constructing) c.phase := by
  cases h with
  | free _ hshared _ hrest =>
      rw [hshared]
      congr 1
      exact Finset.sum_congr rfl fun u _ => weigh_of_rest? (hrest u)
  | @busy t k₀ k n rest _ hinside _ hentry hwithin hsignals hrest =>
      have hplaces : n = 0 → tally (weigh state discarded constructing) f.place +
          (c.phase t).weigh state discarded constructing =
            tally (Phase.weigh state discarded constructing) c.phase + k.weigh state := by
        rintro rfl
        cases hsignals
        rw [show k.weigh state = weigh state discarded constructing (f.place t) by rw [hinside]; rfl]
        exact tally_moved fun u hu => weigh_of_rest? (hrest u hu)
      rcases entry_cases hentry with ⟨rfl, hmay⟩ | ⟨s, hs, rfl⟩
      · rw [weigh_of_mayEnter hmay] at hplaces
        obtain ⟨hn, ⟨hk, hi⟩ | ⟨front, rest, hi, ⟨rfl, hi'⟩ | ⟨rfl, hi'⟩⟩⟩ := within_open hwithin
        · have hplaces := hplaces hn
          rw [view_shared] at hi
          rw [hi]
          rcases hk with rfl | rfl | rfl <;> simpa [Point.weigh] using hplaces
        · have hplaces := hplaces hn
          rw [view_shared] at hi
          rw [hi', hi]
          simpa [Point.weigh] using hplaces
        · have hplaces := hplaces hn
          rw [view_shared] at hi
          rw [hi', hi, hcons]
          simp only [Point.weigh] at hplaces
          omega
      · rw [hs] at hplaces
        obtain ⟨hn, ⟨hk, hi⟩ | ⟨rfl, hi⟩⟩ := within_close hwithin
        · have hplaces := hplaces hn
          rw [view_shared] at hi
          rw [hi]
          rcases hk with rfl | rfl | rfl <;> simpa [Point.weigh, Phase.weigh] using hplaces
        · have hplaces := hplaces hn
          rw [view_shared] at hi
          rw [hi, hsnoc]
          simp only [Point.weigh, Phase.weigh] at hplaces
          omega

def owners (f : Monitor.Config T Pool States Point Outside) (s : Nat) : Nat :=
  f.shared.idle_states.count s +
    tally (weigh (fun s' => if s' = s then 1 else 0) (fun s' => if s' = s then 1 else 0) 0) f.place +
    f.env.closed.count s

/-- The idle states, those that callers have and do not discard, and the calls of `construct()`. -/
def live (f : Monitor.Config T Pool States Point Outside) : Nat :=
  f.shared.idle_states.length + tally (weigh (fun _ => 1) (fun _ => 0) 1) f.place

theorem owners_eq {c : Config T} {f : Monitor.Config T Pool States Point Outside}
    (h : Tracks (statements p) f c.view) (s : Nat) : owners f s = c.owners s := by
  have hweigh := weigh_of_tracks (fun s' => if s' = s then 1 else 0) (fun s' => if s' = s then 1 else 0) 0
    (List.count s) (fun s' l => by simp [List.count_cons, Nat.add_comm]) (fun s' l => by simp [List.count_singleton]) h
  have hparts : tally (Phase.weigh (fun s' => if s' = s then 1 else 0) (fun s' => if s' = s then 1 else 0) 0) c.phase =
      tally (Phase.holds s) c.phase + tally (Phase.discards s) c.phase := by
    unfold tally
    rw [← Finset.sum_add_distrib]
    refine Finset.sum_congr rfl fun u _ => ?_
    cases c.phase u <;> simp [Phase.weigh]
  rw [owners, hweigh, hparts, h.env_eq, Config.owners, ← Nat.add_assoc]
  rfl

theorem live_eq {c : Config T} {f : Monitor.Config T Pool States Point Outside}
    (h : Tracks (statements p) f c.view) :
    live f = c.pool.idle_states.length + c.held + c.constructing := by
  have hweigh := weigh_of_tracks (fun _ => 1) (fun _ => 0) 1 List.length (fun s l => by simp [Nat.add_comm])
    (fun s l => by simp) h
  have hparts : tally (Phase.weigh (fun _ => 1) (fun _ => 0) 1) c.phase = c.held + c.constructing := by
    unfold Config.held Config.constructing tally
    rw [← Finset.sum_add_distrib]
    refine Finset.sum_congr rfl fun u _ => ?_
    cases c.phase u <;> simp [Phase.weigh]
  rw [live, hweigh, hparts, Nat.add_assoc]

/-- Whatever the order of the statements, the mutex reports no error and is held by the caller inside. Every state
built so far is in one place, once, and those that are not being discarded stay within the larger of
`start_states` and `max_states`. -/
theorem pool_statement_ownership {f : Monitor.Config T Pool States Point Outside}
    (h : Reachable (statements p).step (Config.init p : Config T).view.config f) :
    (∀ t, f.place t ≠ .failed) ∧ (∀ t, f.owner = some t ↔ ∃ k, f.place t = .inside k) ∧
      (∀ s, owners f s = if s < f.env.created then 1 else 0) ∧ live f ≤ max p.start_states p.max_states := by
  obtain ⟨c, hc, htracks⟩ := (models p).refines h
  have hinv := poolInv_reachable hc
  refine ⟨htracks.not_failed, htracks.owner_iff, fun s => ?_, ?_⟩
  · rw [owners_eq htracks, hinv.owned s, htracks.env_eq]
    rfl
  · rw [live_eq htracks]
    have := hinv.ledger.counted
    have := hinv.ledger.bounded
    omega

/-- Of two callers of a pool that keeps no idle state, one has discarded its state and the other constructs. -/
theorem pool_statement_ownership_idleless : ∃ f : Monitor.Config Bool Pool States Point Outside,
    Reachable (statements idlelessPool).step (Config.init idlelessPool : Config Bool).view.config f ∧
      f.place false = .outside (.discarding 0) ∧ f.place true = .outside .constructing ∧
      (∀ s, owners f s = if s < f.env.created then 1 else 0) ∧ live f ≤ 1 := by
  have h : Run (step idlelessPool) (Config.init idlelessPool) _ _ :=
    run_of_exec [.open false, .construct false, .close false, .open true] rfl
  obtain ⟨-, -, howners, hlive⟩ := pool_statement_ownership ((models idlelessPool).realizes ⟨_, h⟩)
  exact ⟨_, (models idlelessPool).realizes ⟨_, h⟩, rfl, rfl, howners, hlive⟩

end DromozoaFuse.Manager
