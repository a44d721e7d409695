import DromozoaFuse.Manager.Theorems

/-!
# Who gets through

The callers of `state_manager_main` all get through once no new ones come. In a pool a parked caller is never
woken up, so its sizes have to be such that nobody parks.
-/

namespace DromozoaFuse.Manager

open Base

variable {T : Type*} [DecidableEq T] [Fintype T]

/-! ## `state_manager_main` -/

namespace Main

/-- Neither a new call of `open()` nor a spurious wake-up. -/
def Settles (_ : Config T) : Act T → Prop
  | .open _ | .wake _ => False
  | _ => True

/-- A caller that has been woken up may park again, and one that gets through wakes up another one. -/
def Phase.work : Phase → Nat
  | .out => 0
  | .waiting .parked | .holding _ => 2
  | .waiting _ => 3

def Config.work (c : Config T) : Nat := tally Phase.work c.phase

theorem work_move (c : Config T) (t : T) (ph : Phase) :
    (c.move t ph).work + (c.phase t).work = c.work + ph.work :=
  tally_update ..

/-- A passage through `open()` ends with two units of work, wherever it ends. -/
theorem work_enter (c : Config T) (t : T) : (c.enter t).work + (c.phase t).work = c.work + 2 := by
  unfold Config.enter
  cases c.state_ with
  | none => exact work_move c t (.waiting .parked)
  | some state => exact work_move { c with state_ := none } t (.holding state)

theorem work_lt (c : Config T) (a : Act T) (c' : Config T) (ha : Settles c a) (hs : step c a = some c') :
    c'.work < c.work := by
  cases a with
  | «open» t => exact ha.elim
  | wake t => exact ha.elim
  | resume t =>
      simp only [step, Option.ite_none_right_eq_some, Option.some.injEq] at hs
      obtain ⟨ht, rfl⟩ := hs
      have hwoken : (c.phase t).work = 3 := by rcases ht with ht | ht <;> rw [ht] <;> rfl
      have henter := work_enter c t
      omega
  | close t signalled =>
      cases step_trans hs with
      | @signal _ u state ht hu hne =>
          have hu' : (Config.move { c with state_ := some state } t .out).phase u = .waiting .parked := by
            simp only [Config.move, Function.update_of_ne hne, hu]
          have hout : _ + (c.phase t).work = c.work + 0 := work_move { c with state_ := some state } t .out
          have hsignal : _ + _ = _ + 3 :=
            work_move (Config.move { c with state_ := some state } t .out) u (.waiting .signalled)
          have hheld : (c.phase t).work = 2 := by rw [ht]; rfl
          have hparked : Phase.work (.waiting .parked) = 2 := rfl
          rw [hu'] at hsignal
          omega
      | @close _ state ht _ =>
          have hout : _ + (c.phase t).work = c.work + 0 := work_move { c with state_ := some state } t .out
          have hheld : (c.phase t).work = 2 := by rw [ht]; rfl
          omega
      | enter ha _ => rcases ha with ha | ha <;> cases ha

/-- Where nobody can go on, everybody is out. -/
theorem stuck_out {state : Nat} {c : Config T} (hinv : MainInv state c)
    (h : ∀ a, Settles c a → step c a = none) : c = Config.init state := by
  have hheld : ∀ t s, c.phase t ≠ .holding s := by
    intro t s ht
    by_cases hparked : ∃ u, c.phase u = .waiting .parked
    · obtain ⟨u, hu⟩ := hparked
      simpa [step, ht, hu] using h (.close t (some u)) trivial
    · simpa [step, ht, not_exists.mp hparked] using h (.close t none) trivial
  have hwoken : ∀ t w, w ≠ .parked → c.phase t ≠ .waiting w := by
    intro t w hw ht
    have hresume := h (.resume t) trivial
    cases w <;> simp_all [step]
  obtain ⟨⟨owner, hstate, hphase⟩, hlost⟩ := hinv
  obtain rfl : owner = none := by
    cases owner with
    | none => rfl
    | some t => exact absurd ((hphase t state).mpr ⟨rfl, rfl⟩) (hheld t state)
  have hback : c.state_ = some state := hstate
  have hout : c.phase = fun _ => .out := by
    funext t
    cases ht : c.phase t with
    | out => rfl
    | holding s => exact absurd ht (hheld t s)
    | waiting w =>
        by_cases hw : w = .parked
        · subst hw
          obtain ⟨u, hu⟩ := noLostWakeup_iff.mp hlost ⟨t, ht⟩ (by simp [hback])
          exact absurd hu (hwoken u .signalled (by simp))
        · exact absurd ht (hwoken t w hw)
  cases c
  simp_all [Config.init]

/-- From wherever the callers stand, once no new call is made everybody gets through: the steps that are left are at
most three for each caller, and where there is none left everybody is out and the state is back. -/
theorem main_drains {state : Nat} {c c' : Config T} (h : Reachable step (Config.init state) c)
    {tr : List (Config T × Act T)} (hrun : Run step c tr c') (hsettles : EveryStep Settles tr) :
    tr.length ≤ Fintype.card T * 3 ∧ ((∀ a, Settles c' a → step c' a = none) → c' = Config.init state) := by
  constructor
  · have hlength : tr.length + c'.work ≤ c.work := hrun.length_le work_lt hsettles
    have hwork : c.work ≤ Fintype.card T * 3 := by
      refine tally_le (fun ph => ?_) c.phase
      rcases ph with _ | w | s
      · exact Nat.zero_le 3
      · cases w <;> decide
      · exact Nat.le_succ 2
    omega
  · exact stuck_out (mainInv_reachable (h.trans ⟨tr, hrun⟩))

/-- The first of two callers gives the state back, and the other one comes through with it. -/
theorem main_drains_two : ∃ tr, ∃ c c' : Config (Fin 2), Reachable step (Config.init 5) c ∧ Run step c tr c' ∧
    tr.length = 3 ∧ c'.state_ = some 5 ∧ tr.length ≤ 6 ∧
    ((∀ a, Settles c' a → step c' a = none) → c' = Config.init 5) := by
  have h : Run step (Config.init 5) _ _ := run_of_exec [Act.open 0, .open (1 : Fin 2)] rfl
  refine ⟨_, _, _, ⟨_, h⟩, run_of_exec [.close 0 (some 1), .resume 1, .close 1 none] rfl, rfl, rfl, ?_⟩
  exact main_drains ⟨_, h⟩ (run_of_exec [.close 0 (some 1), .resume 1, .close 1 none] rfl)
    (by simp [EveryStep, Settles])

end Main

/-! ## Parked in a pool -/

variable {p : PoolParams}

omit [Fintype T] in
theorem Trans.parked {c c' : Config T} {a : Act T} (htr : Trans p c c' a) {t : T} (ha : a ≠ .wake t)
    (ht : c.phase t = .waiting .parked) : c'.phase t = .waiting .parked := by
  have hstays : ∀ {u ph pool created closed}, Moves c c' u ph pool created closed →
      c.phase u ≠ .waiting .parked → c'.phase t = .waiting .parked := by
    intro u ph pool created closed hm hu
    rw [hm.phase, Function.update_of_ne]
    · exact ht
    · rintro rfl
      exact hu ht
  cases htr with
  | park _ hmay _ hm | take _ hmay _ hm | begin _ hmay _ _ hm => exact hstays hm hmay.not_parked
  | @wake u hu hm =>
      rw [hm.phase, Function.update_of_ne]
      · exact ht
      · rintro rfl
        exact ha rfl
  | construct hu hm | throw hu hm | keep hu _ hm | discard hu _ hm | lua_close hu hm => exact hstays hm (by simp [hu])

omit [Fintype T] in
/-- A caller of a pool that has parked stays parked, whatever the others do, unless it wakes up spuriously. -/
theorem parked_stays {c c' : Config T} {tr : List (Config T × Act T)} (hrun : Run (step p) c tr c') {t : T}
    (ht : c.phase t = .waiting .parked) (hwake : EveryStep (fun _ a => a ≠ .wake t) tr) :
    c'.phase t = .waiting .parked := by
  induction hrun with
  | nil => exact ht
  | snoc _ hs ih =>
      obtain ⟨hwake, ha⟩ := everyStep_snoc.mp hwake
      exact (step_trans hs).parked ha (ih hwake)

/-- The only state of a pool is put back, and the second caller stays parked next to it. -/
theorem parked_stays_onePool : ∃ tr, ∃ c c' : Config Bool, Reachable (step onePool) (Config.init onePool) c ∧
    Run (step onePool) c tr c' ∧ c'.pool.idle_states = [0] ∧ c'.phase true = .waiting .parked := by
  have h : Run (step onePool) (Config.init onePool) _ _ :=
    run_of_exec [.open false, .construct false, .open true] rfl
  obtain ⟨c, hc, ht, tr, c', hrun, hidle, hwake⟩ : ∃ c, Reachable (step onePool) (Config.init onePool) c ∧
      c.phase true = .waiting .parked ∧ ∃ tr c', Run (step onePool) c tr c' ∧ c'.pool.idle_states = [0] ∧
        EveryStep (fun _ a => a ≠ .wake true) tr :=
    ⟨_, ⟨_, h⟩, rfl, _, _, run_of_exec [.close false] rfl, rfl, by simp [EveryStep]⟩
  exact ⟨tr, c, c', hc, hrun, hidle, parked_stays hrun ht hwake⟩

/-! ## Sizes with which nobody parks -/

omit [DecidableEq T] in
theorem places_lt {c : Config T} {t : T} (ht : (c.phase t).MayEnter) :
    c.held + c.constructing < Fintype.card T := by
  have hplaces : c.held + c.constructing = tally Phase.place c.phase := by
    simp only [Config.held, Config.constructing, tally, Phase.place_eq, Finset.sum_add_distrib]
  rw [hplaces]
  refine tally_lt_card (fun ph => ?_) ht.place
  cases ph <;> simp [Phase.place]

omit [Fintype T] in
theorem unparked_step {c c' : Config T} {a : Act T} (hc : ¬ c.Parked) (hs : step p c a = some c')
    (hpass : ∀ t, (c.phase t).MayEnter → ¬ c.pool.waits p) : ¬ c'.Parked := by
  intro hparked
  cases step_trans hs with
  | park _ hmay hwaits _ => exact hpass _ hmay hwaits
  | take _ _ _ hm | begin _ _ _ _ hm | wake _ hm | construct _ hm | throw _ hm | keep _ _ hm | discard _ _ hm
  | lua_close _ hm => exact hc (hm.parked_of (by simp) hparked)

/-- No caller has to wait while each of them may have a state built. -/
theorem unparked_of_max (hmax : Fintype.card T ≤ p.max_states) {c : Config T} {tr : List (Config T × Act T)}
    (h : Run (step p) (Config.init p) tr c) (hthrow : EveryStep NoThrow tr) : ¬ c.Parked := by
  suffices hinv : c.Accounts ∧ ¬ c.Parked from hinv.2
  induction h with
  | nil => exact ⟨accounts_init, not_parked_init⟩
  | @snoc tr c a c' hrun hs ih =>
      obtain ⟨hthrow, ha⟩ := everyStep_snoc.mp hthrow
      obtain ⟨haccounts, hc⟩ := ih hthrow
      refine ⟨(accounts_step (poolInv_reachable ⟨tr, hrun⟩) haccounts hs).mpr ha, unparked_step hc hs ?_⟩
      rintro t hmay ⟨-, hfull⟩
      have hlt := places_lt hmay
      unfold Config.Accounts at haccounts
      omega

/-- Every caller can have one of the states that are there. -/
structure Roomy (p : PoolParams) (c : Config T) : Prop where
  inv : PoolInv p c
  accounts : c.Accounts
  room : Fintype.card T ≤ c.pool.active_states + c.pool.idle_states.length
  idle : ∀ t, c.phase t ≠ .constructing
  unparked : ¬ c.Parked

omit [DecidableEq T] in
theorem Roomy.pass {c : Config T} (h : Roomy p c) {t : T} (ht : (c.phase t).MayEnter) : c.pool.idle_states ≠ [] := by
  intro hi
  have hlt := places_lt ht
  have hroom := h.room
  have haccounts := h.accounts
  unfold Config.Accounts at haccounts
  rw [hi, List.length_nil] at hroom
  omega

/-- Nothing has to be built. -/
theorem Roomy.noThrow {c c' : Config T} {a : Act T} (h : Roomy p c) (hs : step p c a = some c') : NoThrow c a := by
  cases step_trans hs with
  | throw ht _ => exact absurd ht (h.idle _)
  | park ha _ _ _ | take ha _ _ _ | begin ha _ _ _ _ => exact ha.noThrow
  | wake _ _ | construct _ _ | keep _ _ _ | discard _ _ _ | lua_close _ _ => trivial

theorem roomy_step (hidle : Fintype.card T ≤ p.max_idle_states) (c : Config T) (a : Act T) (c' : Config T)
    (h : Roomy p c) (hs : step p c a = some c') : Roomy p c' := by
  have hthrow := h.noThrow hs
  have hinv := h.inv
  refine ⟨poolInv_step c a c' hinv hs, (accounts_step hinv h.accounts hs).mpr hthrow, ?_, ?_, ?_⟩
  · have hroom := h.room
    cases step_trans hs with
    | park _ _ _ hm | wake _ hm | construct _ hm | throw _ hm | lua_close _ hm => rwa [hm.pool]
    | take _ _ hi hm =>
        simp only [hm.pool, hinv.ledger.active_add (not_waits_of_cons hi)]
        rw [hi, List.length_cons] at hroom
        omega
    | begin _ hmay hi _ _ => exact absurd hi (h.pass hmay)
    | keep ht _ hm =>
        have hpos := hinv.ledger.active_pos ht
        simp only [hm.pool, hinv.ledger.active_sub ht, List.length_append, List.length_singleton]
        omega
    | discard _ hle hm =>
        simp only [hm.pool]
        omega
  · intro t ht
    cases step_trans hs with
    | begin _ hmay hi _ _ => exact h.pass hmay hi
    | park _ _ _ hm | take _ _ _ hm | wake _ hm | construct _ hm | throw _ hm | keep _ _ hm | discard _ _ hm
    | lua_close _ hm => cases (hm.changed ht (h.idle t)).2
  · exact unparked_step h.unparked hs fun t hmay hwaits => h.pass hmay hwaits.1

theorem roomy_reachable (hidle : Fintype.card T ≤ min p.start_states p.max_idle_states) {c : Config T}
    (h : Reachable (step p) (Config.init p) c) : Roomy p c := by
  have hinit : Roomy p (Config.init p : Config T) := by
    refine ⟨poolInv_init, accounts_init, ?_, fun t ht => (by cases ht), not_parked_init⟩
    simp only [Config.init, List.length_range]
    omega
  exact h.invariant hinit (roomy_step (by omega))

/-! ## Sizes with which somebody parks -/

/-- `c'` is reached from `c` without a `construct()` that throws. -/
def Quiet (p : PoolParams) (c c' : Config T) : Prop := ∃ tr, Run (step p) c tr c' ∧ EveryStep NoThrow tr

section

omit [Fintype T]

theorem Quiet.refl (c : Config T) : Quiet p c c := ⟨[], .nil, by simp [EveryStep]⟩

theorem Quiet.tail {c c' c'' : Config T} {a : Act T} (h : Quiet p c c')
    (hs : step p c' a = some c'') (ha : NoThrow c' a) : Quiet p c c'' := by
  obtain ⟨tr, hrun, hthrow⟩ := h
  exact ⟨_, .snoc hrun hs, everyStep_snoc.mpr ⟨hthrow, ha⟩⟩

theorem Quiet.reachable {c c' : Config T} (h : Quiet p c c') : Reachable (step p) c c' :=
  ⟨h.choose, h.choose_spec.1⟩

theorem open_step {c : Config T} {t : T} (ht : c.phase t = .out) : step p c (.open t) = some (c.enter p t) :=
  if_pos ht

end

omit [Fintype T] in
/-- One caller after the other takes a state that the list has to keep no longer, and gives it back. -/
theorem idle_discarded (t : T) {n : Nat} (hn : n ≤ p.start_states - p.max_idle_states) :
    ∃ c : Config T, Quiet p (Config.init p) c ∧ c.phase = (fun _ => .out) ∧ c.pool.active_states = 0 ∧
      c.pool.idle_states.length + n = p.start_states := by
  induction n with
  | zero => exact ⟨Config.init p, .refl _, rfl, rfl, by simp [Config.init]⟩
  | succ n ih =>
      obtain ⟨c, hquiet, hout, hactive, hlength⟩ := ih (by omega)
      obtain ⟨front, rest, hi⟩ : ∃ front rest, c.pool.idle_states = front :: rest :=
        List.exists_cons_of_length_pos (by omega)
      rw [hi, List.length_cons] at hlength
      have hopen : step p c (.open t) = some (Config.move { c with pool := ⟨1, rest⟩ } t (.holding front)) := by
        rw [open_step (by rw [hout])]
        simp [Config.enter, Pool.open, Pool.waits, hi, hactive, size_inc]
      have hclose : step p (Config.move { c with pool := ⟨1, rest⟩ } t (.holding front)) (.close t) =
          some (Config.move { c with pool := ⟨0, rest⟩ } t (.discarding front)) := by
        have hheld : (Config.move { c with pool := ⟨1, rest⟩ } t (.holding front)).phase t = .holding front := by
          simp [Config.move]
        rw [step_close hheld]
        have hfull : ¬ rest.length < p.max_idle_states := by omega
        simp [Config.move, Pool.close, hfull, size_dec]
      have hlua_close : step p (Config.move { c with pool := ⟨0, rest⟩ } t (.discarding front)) (.lua_close t) =
          some (Config.move { c with pool := ⟨0, rest⟩, closed := front :: c.closed } t .out) := by
        simp [step, Config.move]
      refine ⟨_, ((hquiet.tail hopen trivial).tail hclose trivial).tail hlua_close trivial, ?_, rfl, ?_⟩
      · simp only [Config.move, hout, Function.update_eq_self_iff]
      · simp only [Config.move]
        omega

/-- The callers of `s` come one after the other. Either one of them has to wait, or each has a place. -/
theorem places_taken {c₀ : Config T} (hquiet₀ : Quiet p (Config.init p) c₀) (hout : c₀.phase = fun _ => .out)
    (hactive : c₀.pool.active_states = 0) (s : Finset T) :
    ∃ c : Config T, Quiet p (Config.init p) c ∧ (c.Parked ∨ (∀ t ∉ s, c.phase t = .out) ∧
      c.pool.active_states = s.card ∧ c.pool.idle_states.length = c₀.pool.idle_states.length - s.card) := by
  induction s using Finset.induction_on with
  | empty => exact ⟨c₀, hquiet₀, Or.inr ⟨fun t _ => by rw [hout], hactive, rfl⟩⟩
  | insert t s hts ih =>
      obtain ⟨c, hquiet, hparked | ⟨hrest, hcard, hlength⟩⟩ := ih
      · exact ⟨c, hquiet, Or.inl hparked⟩
      have ht := hrest t hts
      have hopened := hquiet.tail (open_step ht) trivial
      have hledger := (poolInv_reachable hquiet.reachable).ledger
      rw [Finset.card_insert_of_notMem hts]
      have hothers : ∀ {ph}, ∀ u ∉ insert t s, Function.update c.phase t ph u = .out := fun u hu => by
        rw [Finset.mem_insert, not_or] at hu
        rw [Function.update_of_ne hu.1]
        exact hrest u hu.2
      cases enter_trans (p := p) (c := c) (a := .open t) (Or.inl rfl) (Or.inl ht) with
      | park _ _ _ hm => exact ⟨_, hopened, Or.inl ⟨_, by rw [hm.phase]; exact Function.update_self ..⟩⟩
      | @take _ u _ rest ha _ hi hm =>
          obtain rfl : t = u := by rcases ha with ha | ha <;> cases ha; rfl
          refine ⟨_, hopened, Or.inr ⟨by rw [hm.phase]; exact hothers, ?_, ?_⟩⟩
          · rw [hm.pool, ← hcard]
            exact hledger.active_add (not_waits_of_cons hi)
          · rw [hi, List.length_cons] at hlength
            simp only [hm.pool]
            omega
      | @begin _ u ha _ hi hlt hm =>
          obtain rfl : t = u := by rcases ha with ha | ha <;> cases ha; rfl
          have hconstructing : (c.enter p t).phase t = .constructing := by rw [hm.phase]; exact Function.update_self ..
          refine ⟨_, hopened.tail (a := .construct t) (if_pos hconstructing) trivial, Or.inr ⟨?_, ?_, ?_⟩⟩
          · simp only [Config.move, hm.phase, Function.update_idem]
            exact hothers
          · simp only [Config.move, hm.pool]
            rw [← hcard]
            exact hledger.active_add (not_waits_of_lt hlt)
          · rw [hi, List.length_nil] at hlength
            simp only [Config.move, hm.pool, List.length_nil]
            omega

omit [Fintype T] in
/-- The states that are left when all callers are out may be as few as this. -/
theorem drained (p : PoolParams) (t : T) : ∃ c : Config T, Quiet p (Config.init p) c ∧ c.phase = (fun _ => .out) ∧
    c.pool.active_states = 0 ∧ c.pool.idle_states.length = min p.start_states p.max_idle_states := by
  obtain ⟨c, hquiet, hout, hactive, hlength⟩ :=
    idle_discarded (p := p) t (Nat.le_refl (p.start_states - p.max_idle_states))
  exact ⟨c, hquiet, hout, hactive, by omega⟩

omit [Fintype T] in
theorem parks_of_full {c : Config T} {t : T} (ht : c.phase t = .out) (hi : c.pool.idle_states = [])
    (hfull : p.max_states ≤ c.pool.active_states) : ∃ c', step p c (.open t) = some c' ∧ c'.Parked := by
  have hopen : c.pool.open p = (.wait, c.pool) := if_pos ⟨hi, hfull⟩
  refine ⟨_, open_step ht, t, ?_⟩
  rw [Config.enter, hopen]
  exact Function.update_self ..

theorem parks_of_few (hmax : p.max_states < Fintype.card T)
    (hidle : min p.start_states p.max_idle_states < Fintype.card T) :
    ∃ c : Config T, Quiet p (Config.init p) c ∧ c.Parked := by
  obtain ⟨t⟩ : Nonempty T := Fintype.card_pos_iff.mp (by omega)
  obtain ⟨c₀, hquiet₀, hout, hactive, hlength₀⟩ := drained p t
  have hcard : (Finset.univ.erase t).card + 1 = Fintype.card T := Finset.card_erase_add_one (Finset.mem_univ t)
  obtain ⟨c, hquiet, hparked | ⟨hrest, hplaces, hlength⟩⟩ := places_taken hquiet₀ hout hactive (Finset.univ.erase t)
  · exact ⟨c, hquiet, hparked⟩
  · obtain ⟨c', hs, hparked⟩ := parks_of_full (p := p) (hrest t (Finset.notMem_erase t _))
      (List.length_eq_zero_iff.mp (by omega)) (by omega)
    exact ⟨c', hquiet.tail hs trivial, hparked⟩

/-- Without an exception from `construct()`, nobody ever parks if and only if the pool may build a state for every
caller, or starts with that many and keeps them. -/
theorem nobody_parks_iff (p : PoolParams) :
    (∀ (tr : List (Config T × Act T)) c, Run (step p) (Config.init p) tr c → EveryStep NoThrow tr → ¬ c.Parked) ↔
      Fintype.card T ≤ p.max_states ∨ Fintype.card T ≤ min p.start_states p.max_idle_states := by
  constructor
  · intro h
    by_contra hnot
    rw [not_or, not_le, not_le] at hnot
    obtain ⟨c, ⟨tr, hrun, hthrow⟩, hparked⟩ := parks_of_few (T := T) hnot.1 hnot.2
    exact h tr c hrun hthrow hparked
  · rintro (hmax | hidle) tr c hrun hthrow
    · exact unparked_of_max hmax hrun hthrow
    · exact (roomy_reachable hidle ⟨tr, hrun⟩).unparked

/-- A caller whose `construct()` throws over and over takes up all places. -/
theorem places_leaked {t : T} {n : Nat} {c : Config T} (h : Reachable (step p) (Config.init p) c)
    (ht : c.phase t = .out) (hi : c.pool.idle_states = []) (hn : p.max_states ≤ c.pool.active_states + n) :
    ∃ c' : Config T, Reachable (step p) (Config.init p) c' ∧ c'.phase t = .out ∧ c'.pool.idle_states = [] ∧
      p.max_states ≤ c'.pool.active_states := by
  induction n generalizing c with
  | zero => exact ⟨c, h, ht, hi, hn⟩
  | succ n ih =>
      by_cases hfull : p.max_states ≤ c.pool.active_states
      · exact ⟨c, h, ht, hi, hfull⟩
      have hpass : ¬ c.pool.waits p := not_waits_of_lt (by omega)
      have hadd := (poolInv_reachable h).ledger.active_add hpass
      have hopen : step p c (.open t) =
          some (Config.move { c with pool := ⟨c.pool.active_states + 1, []⟩ } t .constructing) := by
        rw [open_step ht]
        simp [Config.enter, Pool.open, hpass, hi, hadd]
      have hthrow : step p (Config.move { c with pool := ⟨c.pool.active_states + 1, []⟩ } t .constructing) (.throw t) =
          some (Config.move { c with pool := ⟨c.pool.active_states + 1, []⟩ } t .out) := by
        simp [step, Config.move]
      exact ih ((h.tail hopen).tail hthrow) (Function.update_self ..) rfl (by simp only [Config.move]; omega)

theorem parks_of_throwing (hidle : min p.start_states p.max_idle_states < Fintype.card T) :
    ∃ c : Config T, Reachable (step p) (Config.init p) c ∧ c.Parked := by
  obtain ⟨t⟩ : Nonempty T := Fintype.card_pos_iff.mp (by omega)
  obtain ⟨c₀, hquiet₀, hout, hactive, hlength₀⟩ := drained p t
  have hcard : (Finset.univ.erase t).card + 1 = Fintype.card T := Finset.card_erase_add_one (Finset.mem_univ t)
  obtain ⟨s, hsub, hs⟩ : ∃ s ⊆ Finset.univ.erase t, s.card = min p.start_states p.max_idle_states :=
    Finset.exists_subset_card_eq (by omega)
  have hts : t ∉ s := fun hmem => Finset.notMem_erase t _ (hsub hmem)
  obtain ⟨c, hquiet, hparked | ⟨hrest, -, hlength⟩⟩ := places_taken hquiet₀ hout hactive s
  · exact ⟨c, hquiet.reachable, hparked⟩
  · obtain ⟨c', hc', ht', hi', hfull⟩ := places_leaked hquiet.reachable (hrest t hts)
      (List.length_eq_zero_iff.mp (by omega)) (Nat.le_add_left p.max_states c.pool.active_states)
    obtain ⟨c'', hs, hparked⟩ := parks_of_full ht' hi' hfull
    exact ⟨c'', hc'.tail hs, hparked⟩

/-- Whatever `construct()` does, nobody ever parks if and only if the pool starts with a state for every caller and
keeps them: each exception takes away a place for good. -/
theorem nobody_parks_throwing_iff (p : PoolParams) :
    (∀ c : Config T, Reachable (step p) (Config.init p) c → ¬ c.Parked) ↔
      Fintype.card T ≤ min p.start_states p.max_idle_states := by
  constructor
  · intro h
    by_contra hidle
    obtain ⟨c, hc, hparked⟩ := parks_of_throwing (T := T) (not_le.mp hidle)
    exact h c hc hparked
  · exact fun hidle c h => (roomy_reachable hidle h).unparked

end DromozoaFuse.Manager
