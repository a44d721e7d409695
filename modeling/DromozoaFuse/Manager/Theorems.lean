import DromozoaFuse.Manager.Constructor
import DromozoaFuse.Manager.Lemmas.MainInvariants
import DromozoaFuse.Manager.Lemmas.PoolInvariants

/-!
# What the pool promises its callers

Wake-ups, ownership of the Lua states, and the accounting of `active_states_`.
-/

namespace DromozoaFuse.Manager

open Base Lua

variable {T : Type*} {p : PoolParams}

/-! ## Wake-ups -/

def Config.NoLostWakeup (p : PoolParams) (c : Config T) : Prop :=
  Base.NoLostWakeup c.waiting (c.pool.waits p)

def Config.Parked (c : Config T) : Prop := ∃ t, c.phase t = .waiting .parked

theorem not_parked_init : ¬ (Config.init p : Config T).Parked := by
  rintro ⟨t, ht⟩
  cases ht

/-- A `close()` that leaves nobody parked behind, or one that discards its state while more than
`max_states_` are out, so that a parked caller has to go on waiting. -/
def WakeSafe (p : PoolParams) (c : Config T) : Act T → Prop
  | .close _ => ¬ c.Parked ∨
      p.max_idle_states ≤ c.pool.idle_states.length ∧ p.max_states < c.pool.active_states
  | _ => True

theorem Act.Enters.wakeSafe {c : Config T} {a : Act T} {t : T} (h : a.Enters t) : WakeSafe p c a := by
  rcases h with rfl | rfl <;> trivial

theorem waiting_eq_some {c : Config T} {t : T} {w : Wait} :
    c.waiting t = some w ↔ c.phase t = .waiting w := by
  unfold Config.waiting
  cases c.phase t <;> simp

/-- Nobody is signalled, so a parked caller has to be blocked. -/
theorem noLostWakeup_iff_of_unsignalled {c : Config T} (h : Unsignalled c) :
    c.NoLostWakeup p ↔ (c.Parked → c.pool.waits p) := by
  simp only [Config.NoLostWakeup, Base.NoLostWakeup, waiting_eq_some, Config.Parked]
  constructor
  · intro hn hp
    by_contra hw
    obtain ⟨t, ht⟩ := hn hp hw
    exact h t ht
  · intro hn hp hw
    exact absurd (hn hp) hw

variable [DecidableEq T]

theorem Moves.parked_of {c c' : Config T} {t : T} {ph : Phase} {pool created closed}
    (hm : Moves c c' t ph pool created closed) (hph : ph ≠ .waiting .parked) (h : c'.Parked) :
    c.Parked := by
  obtain ⟨u, hu⟩ := h
  by_cases hcu : c.phase u = .waiting .parked
  · exact ⟨u, hcu⟩
  · exact absurd (hm.changed hu hcu).2 hph

theorem Moves.parked {c c' : Config T} {t : T} {ph : Phase} {pool created closed}
    (hm : Moves c c' t ph pool created closed) (ht : c.phase t ≠ .waiting .parked) (h : c.Parked) :
    c'.Parked := by
  obtain ⟨u, hu⟩ := h
  refine ⟨u, ?_⟩
  rw [hm.phase, Function.update_of_ne]
  · exact hu
  · rintro rfl
    exact ht hu

variable [Fintype T]

theorem wakeSafe_step {c c' : Config T} {a : Act T} (hinv : PoolInv p c)
    (hw : c.Parked → c.pool.waits p) (hs : step p c a = some c') :
    (c'.Parked → c'.pool.waits p) ↔ WakeSafe p c a := by
  have htr := step_trans hs
  cases htr with
  | park ha _ hwaits hm =>
      exact ⟨fun _ => ha.wakeSafe, fun _ _ => by rwa [hm.pool]⟩
  | take ha _ hi hm =>
      exact ⟨fun _ => ha.wakeSafe, fun _ hp =>
        absurd (hw (hm.parked_of (by simp) hp)) (not_waits_of_cons hi)⟩
  | begin ha _ hi hlt hm =>
      exact ⟨fun _ => ha.wakeSafe, fun _ hp => absurd (hw (hm.parked_of (by simp) hp)) (not_waits_of_lt hlt)⟩
  | wake _ hm | construct _ hm | throw _ hm | lua_close _ hm =>
      exact ⟨fun _ => trivial, fun _ hp => by rw [hm.pool]; exact hw (hm.parked_of (by simp) hp)⟩
  | keep ht hlt hm =>
      constructor
      · intro h'
        refine Or.inl fun hp => ?_
        have hwaits := h' (hm.parked (by simp [ht]) hp)
        simp [hm.pool, Pool.waits] at hwaits
      · rintro (hp | ⟨hle, _⟩) hp'
        · exact absurd (hm.parked_of (by simp) hp') hp
        · omega
  | discard ht hle hm =>
      have hsub := hinv.ledger.active_sub ht
      have hpos := hinv.ledger.active_pos ht
      constructor
      · intro h'
        by_cases hp : c.Parked
        · have hwaits := h' (hm.parked (by simp [ht]) hp)
          simp only [hm.pool, Pool.waits, hsub] at hwaits
          exact Or.inr ⟨hle, by omega⟩
        · exact Or.inl hp
      · rintro (hp | ⟨_, hlt⟩) hp'
        · exact absurd (hm.parked_of (by simp) hp') hp
        · have hwaits := hw (hm.parked_of (by simp) hp')
          simp only [hm.pool, Pool.waits, hsub] at hwaits ⊢
          exact ⟨hwaits.1, by omega⟩

/-- A run loses no wake-up exactly when none of its `close()` calls frees a place while a caller is
parked: `close()` does not signal `condition_`. -/
theorem no_lost_wakeup_iff {tr : List (Config T × Act T)} {c : Config T}
    (h : Run (step p) (Config.init p) tr c) :
    Always (Config.NoLostWakeup p) tr c ↔ EveryStep (WakeSafe p) tr := by
  have h₀ : (Config.init p : Config T).NoLostWakeup p :=
    (noLostWakeup_iff_of_unsignalled unsignalled_init).mpr fun hp => absurd hp not_parked_init
  refine h.always_iff poolInv_init poolInv_step h₀ ?_
  intro c a c' hinv hw hs
  have hinv' := poolInv_step _ _ _ hinv hs
  rw [noLostWakeup_iff_of_unsignalled hinv.unsignalled] at hw
  rw [noLostWakeup_iff_of_unsignalled hinv'.unsignalled]
  exact wakeSafe_step hinv hw hs

/-- A pool that keeps no idle state and was started with more states than it may construct. -/
def overfullPool : PoolParams := ⟨2, 1, 0, by decide, by decide, by decide⟩

/-- Two callers take the started states, a third parks, and one of the two is discarded. -/
theorem no_lost_wakeup_iff_overfull : ∃ tr c,
    Run (step overfullPool) (Config.init overfullPool : Config (Fin 3)) tr c ∧ c.Parked ∧
      (Always (Config.NoLostWakeup overfullPool) tr c ↔ EveryStep (WakeSafe overfullPool) tr) :=
  have h := run_of_exec [Act.open 0, .open 1, .open 2, .close (0 : Fin 3)] rfl
  ⟨_, _, h, ⟨2, rfl⟩, no_lost_wakeup_iff h⟩

/-- A pool of one state, built on demand. -/
def onePool : PoolParams := ⟨0, 1, 1, by decide, by decide, by decide⟩

/-- The first caller holds the only state, the second parks, the first puts the state back. -/
theorem wakeup_lost : ∃ c, Reachable (step onePool) (Config.init onePool : Config Bool) c ∧
    ¬ c.NoLostWakeup onePool := by
  refine ⟨_, ⟨_, run_of_exec [.open false, .construct false, .open true, .close false] rfl⟩, ?_⟩
  intro h
  obtain ⟨t, ht⟩ := h ⟨true, rfl⟩ (by decide)
  revert ht
  cases t <;> decide

/-! ## Failed constructions -/

def Config.Accounts (c : Config T) : Prop := c.pool.active_states = c.held + c.constructing

/-- Nobody is parked while fewer than `max_states_` are out or in construction. -/
def Config.ParkedFull (p : PoolParams) (c : Config T) : Prop :=
  c.Parked → p.max_states ≤ c.held + c.constructing

/-- An `open()` whose `construct()` throws takes back its increment and leaves the idle list alone. -/
def ThrowUndoes (p : PoolParams) (c : Config T) : Act T → Prop
  | .throw t => ∀ c', step p c (.throw t) = some c' →
      c'.pool.active_states + 1 = c.pool.active_states ∧ c'.pool.idle_states = c.pool.idle_states
  | _ => True

/-- An `open()` that starts to wait finds `max_states_` out or in construction. -/
def StartsWaitingFull (p : PoolParams) (c : Config T) (a : Act T) : Prop :=
  ∀ t c', a.Enters t → step p c a = some c' → c'.phase t = .waiting .parked →
    p.max_states ≤ c.held + c.constructing

def NoThrow (_ : Config T) : Act T → Prop
  | .throw _ => False
  | _ => True

/-- Nobody is parked when a state comes back, unless more than `max_states_` are out. -/
def CloseSafe (p : PoolParams) (c : Config T) : Act T → Prop
  | .close _ => ¬ c.Parked ∨ p.max_states < c.pool.active_states
  | _ => True

omit [DecidableEq T] [Fintype T] in
theorem Act.Enters.noThrow {c : Config T} {a : Act T} {t : T} (h : a.Enters t) : NoThrow c a := by
  rcases h with rfl | rfl <;> trivial

omit [DecidableEq T] [Fintype T] in
theorem Act.Enters.closeSafe {c : Config T} {a : Act T} {t : T} (h : a.Enters t) : CloseSafe p c a := by
  rcases h with rfl | rfl <;> trivial

omit [DecidableEq T] in
theorem accounts_init : (Config.init p : Config T).Accounts := by
  simp [Config.Accounts, Config.held, Config.constructing, Config.init, tally]

theorem accounts_step {c c' : Config T} {a : Act T} (hinv : PoolInv p c) (hc : c.Accounts)
    (hs : step p c a = some c') : c'.Accounts ↔ NoThrow c a := by
  unfold Config.Accounts at hc ⊢
  have htr := step_trans hs
  cases htr with
  | park ha ht _ hm =>
      have hplaces := hm.places
      rw [ht.place] at hplaces
      simp only [Phase.place] at hplaces
      rw [hm.pool]
      exact ⟨fun _ => ha.noThrow, fun _ => by omega⟩
  | take ha ht hi hm =>
      have hplaces := hm.places
      rw [ht.place] at hplaces
      simp only [Phase.place] at hplaces
      simp only [hm.pool, hinv.ledger.active_add (not_waits_of_cons hi)]
      exact ⟨fun _ => ha.noThrow, fun _ => by omega⟩
  | begin ha ht hi hlt hm =>
      have hplaces := hm.places
      rw [ht.place] at hplaces
      simp only [Phase.place] at hplaces
      simp only [hm.pool, hinv.ledger.active_add (not_waits_of_lt hlt)]
      exact ⟨fun _ => ha.noThrow, fun _ => by omega⟩
  | wake ht hm | construct ht hm | lua_close ht hm =>
      have hplaces := hm.places
      simp only [ht, Phase.place] at hplaces
      rw [hm.pool]
      exact ⟨fun _ => trivial, fun _ => by omega⟩
  | throw ht hm =>
      have hplaces := hm.places
      simp only [ht, Phase.place] at hplaces
      rw [hm.pool]
      exact ⟨fun h' => by omega, fun hf => hf.elim⟩
  | keep ht _ hm | discard ht _ hm =>
      have hplaces := hm.places
      have hpos := hinv.ledger.active_pos ht
      simp only [ht, Phase.place] at hplaces
      simp only [hm.pool, hinv.ledger.active_sub ht]
      exact ⟨fun _ => trivial, fun _ => by omega⟩

omit [Fintype T] in
theorem throwUndoes_iff {c c' : Config T} {a : Act T} (hs : step p c a = some c') :
    ThrowUndoes p c a ↔ NoThrow c a := by
  cases a with
  | throw t =>
      refine ⟨fun h => ?_, fun hf => hf.elim⟩
      have hdown := (h c' hs).1
      cases step_trans hs with
      | throw _ hm => rw [hm.pool] at hdown; omega
      | park ha _ _ _ | take ha _ _ _ | begin ha _ _ _ _ => rcases ha with h | h <;> cases h
  | «open» t | wake t | resume t | construct t | close t | lua_close t => exact Iff.rfl

theorem startsWaitingFull {c : Config T} (hc : c.Accounts) (a : Act T) : StartsWaitingFull p c a := by
  intro t c' ha hs hpark
  unfold Config.Accounts at hc
  cases step_trans hs with
  | park _ _ hw _ => rw [← hc]; exact hw.2
  | take ha' _ _ hm | begin ha' _ _ _ hm =>
      by_cases hct : c.phase t = .waiting .parked
      · exact absurd hct (ha.mayEnter hs).not_parked
      · cases (hm.changed hpark hct).2
  | wake _ _ | construct _ _ | throw _ _ | keep _ _ _ | discard _ _ _ | lua_close _ _ =>
      rcases ha with h | h <;> cases h

/-- While every construction succeeds, the pool keeps parked callers waiting only when it is full,
step by step, exactly when no state comes back to a parked caller at or below `max_states_`. -/
theorem parkedFull_step {c c' : Config T} {a : Act T} (hinv : PoolInv p c) (hc : c.Accounts)
    (hc' : c'.Accounts) (hf : c.ParkedFull p) (hs : step p c a = some c') :
    c'.ParkedFull p ↔ CloseSafe p c a := by
  unfold Config.Accounts at hc hc'
  unfold Config.ParkedFull at hf ⊢
  rw [← hc] at hf
  rw [← hc']
  have htr := step_trans hs
  cases htr with
  | park ha _ hwaits hm =>
      exact ⟨fun _ => ha.closeSafe, fun _ _ => by rw [hm.pool]; exact hwaits.2⟩
  | take ha _ hi hm =>
      refine ⟨fun _ => ha.closeSafe, fun _ hp => ?_⟩
      have := hf (hm.parked_of (by simp) hp)
      simp only [hm.pool, hinv.ledger.active_add (not_waits_of_cons hi)]
      omega
  | begin ha _ _ hlt hm =>
      refine ⟨fun _ => ha.closeSafe, fun _ hp => ?_⟩
      have := hf (hm.parked_of (by simp) hp)
      omega
  | wake _ hm | construct _ hm | throw _ hm | lua_close _ hm =>
      exact ⟨fun _ => trivial, fun _ hp => by rw [hm.pool]; exact hf (hm.parked_of (by simp) hp)⟩
  | keep ht _ hm | discard ht _ hm =>
      have hpos := hinv.ledger.active_pos ht
      simp only [hm.pool, hinv.ledger.active_sub ht]
      constructor
      · intro h'
        by_cases hp : c.Parked
        · have := h' (hm.parked (by simp [ht]) hp)
          exact Or.inr (by omega)
        · exact Or.inl hp
      · rintro (hp | hlt) hp'
        · exact absurd (hm.parked_of (by simp) hp') hp
        · omega

/-- `active_states_` counts exactly the states out and in construction, a throwing `open()` leaves
no change behind and an `open()` starts to wait only when the pool is full, throughout a run in which
no `construct()` throws and in no other. -/
theorem construction_accounted_iff {tr : List (Config T × Act T)} {c : Config T}
    (h : Run (step p) (Config.init p) tr c) :
    (Always Config.Accounts tr c ∧ EveryStep (ThrowUndoes p) tr ∧ EveryStep (StartsWaitingFull p) tr ↔
      EveryStep NoThrow tr) ∧
    (Always (fun c => c.Accounts ∧ c.ParkedFull p) tr c ∧ EveryStep (ThrowUndoes p) tr ∧
        EveryStep (StartsWaitingFull p) tr ↔
      EveryStep (fun c a => NoThrow c a ∧ CloseSafe p c a) tr) := by
  have hundo : EveryStep (ThrowUndoes p) tr ↔ EveryStep NoThrow tr :=
    forall₂_congr fun q hq => (h.step_of_mem hq).elim fun _ hs => throwUndoes_iff hs
  have hfull : Always Config.Accounts tr c → EveryStep (StartsWaitingFull p) tr :=
    fun ha q hq => startsWaitingFull (ha.1 q hq) q.2
  constructor
  · have hacc : Always Config.Accounts tr c ↔ EveryStep NoThrow tr :=
      h.always_iff poolInv_init poolInv_step accounts_init fun _ _ _ hinv hc hs =>
        accounts_step hinv hc hs
    rw [hundo]
    exact ⟨fun hall => hall.2.1, fun hn => ⟨hacc.mpr hn, hn, hfull (hacc.mpr hn)⟩⟩
  · have hboth : Always (fun c => c.Accounts ∧ c.ParkedFull p) tr c ↔
        EveryStep (fun c a => NoThrow c a ∧ CloseSafe p c a) tr := by
      have h₀ : (Config.init p : Config T).ParkedFull p := fun hp => absurd hp not_parked_init
      refine h.always_iff poolInv_init poolInv_step ⟨accounts_init, h₀⟩ ?_
      rintro c a c' hinv ⟨hc, hf⟩ hs
      rw [accounts_step hinv hc hs]
      refine and_congr_right fun hn => ?_
      exact parkedFull_step hinv hc ((accounts_step hinv hc hs).mpr hn) hf hs
    rw [hundo]
    constructor
    · exact fun hall => hboth.mp hall.1
    · intro hn
      have ha := hboth.mpr hn
      exact ⟨ha, fun q hq => (hn q hq).1,
        hfull ⟨fun q hq => (ha.1 q hq).1, ha.2.1⟩⟩

def twoPool : PoolParams := ⟨0, 2, 1, by decide, by decide, by decide⟩

/-- Two callers construct, the third parks, and the run ends before anything comes back. -/
theorem construction_accounted_iff_twoPool : ∃ tr c,
    Run (step twoPool) (Config.init twoPool : Config (Fin 3)) tr c ∧ c.Parked ∧
      ((Always Config.Accounts tr c ∧ EveryStep (ThrowUndoes twoPool) tr ∧
          EveryStep (StartsWaitingFull twoPool) tr ↔ EveryStep NoThrow tr) ∧
        (Always (fun c => c.Accounts ∧ c.ParkedFull twoPool) tr c ∧ EveryStep (ThrowUndoes twoPool) tr ∧
            EveryStep (StartsWaitingFull twoPool) tr ↔
          EveryStep (fun c a => NoThrow c a ∧ CloseSafe twoPool c a) tr)) :=
  have h := run_of_exec [Act.open 0, .open 1, .construct 0, .construct 1, .open (2 : Fin 3)] rfl
  ⟨_, _, h, ⟨2, rfl⟩, construction_accounted_iff h⟩

/-- The chunk of the only state fails once: nothing is out, and the next caller waits for ever. -/
theorem capacity_leaked : ∃ c, Reachable (step onePool) (Config.init onePool : Config Bool) c ∧
    ¬ c.Accounts ∧ c.phase true = .waiting .parked ∧ c.held + c.constructing = 0 := by
  refine ⟨_, ⟨_, run_of_exec [.open false, .throw false, .open true] rfl⟩, ?_, rfl, by decide⟩
  unfold Config.Accounts
  decide

/-! ## Ownership of the states -/

omit [DecidableEq T] in
/-- A state with one owner is not in two places. -/
theorem Owned.apart {c : Config T} (h : Owned c) {s : Nat} (hs : s ∈ c.pool.idle_states) :
    s ∉ c.closed ∧ ∀ t, c.phase t ≠ .holding s ∧ c.phase t ≠ .discarding s := by
  have hle : c.owners s ≤ 1 := by rw [h s]; split <;> omega
  have hpos : 0 < c.pool.idle_states.count s := List.count_pos_iff.mpr hs
  unfold Config.owners at hle
  refine ⟨fun hc => ?_, fun t => ⟨fun ht => ?_, fun ht => ?_⟩⟩
  · have := List.count_pos_iff.mpr hc
    omega
  · have := holds_pos ht
    omega
  · have := discards_pos ht
    omega

omit [DecidableEq T] in
theorem Owned.fresh {c : Config T} (h : Owned c) {s : Nat} (hs : c.created ≤ s) :
    s ∉ c.closed ∧ ∀ t, c.phase t ≠ .holding s ∧ c.phase t ≠ .discarding s := by
  have hzero : c.owners s = 0 := by rw [h s, if_neg (by omega)]
  unfold Config.owners at hzero
  refine ⟨fun hc => ?_, fun t => ⟨fun ht => ?_, fun ht => ?_⟩⟩
  · have := List.count_pos_iff.mpr hc
    omega
  · have := holds_pos ht
    omega
  · have := discards_pos ht
    omega

/-- What a step hands to a caller nobody had before it. -/
theorem Trans.handed_out {c c' : Config T} {a : Act T} (htr : Trans p c c' a) (h : Owned c) {t : T}
    {s : Nat} (ht' : c'.phase t = .holding s) (ht : c.phase t ≠ .holding s) :
    s ∉ c.closed ∧ ∀ u, c.phase u ≠ .holding s ∧ c.phase u ≠ .discarding s := by
  cases htr with
  | take _ _ hi hm =>
      obtain ⟨_, hph⟩ := hm.changed ht' ht
      rw [Phase.holding.injEq] at hph
      subst hph
      exact h.apart (by rw [hi]; exact List.mem_cons_self)
  | construct _ hm =>
      obtain ⟨_, hph⟩ := hm.changed ht' ht
      rw [Phase.holding.injEq] at hph
      exact h.fresh (Nat.le_of_eq hph)
  | park _ _ _ hm | begin _ _ _ _ hm | wake _ hm | throw _ hm | keep _ _ hm | discard _ _ hm
  | lua_close _ hm => cases (hm.changed ht' ht).2

/-- Every state built so far is in exactly one place, once: the idle list, one holder, one `close()`
that is about to discard it, or the list of closed states. The live states other than the discarded
ones stay within the larger of `start_states` and `max_states`. -/
theorem exclusive_ownership {c : Config T} (h : Reachable (step p) (Config.init p) c) :
    (∀ s < c.created, c.owners s = 1) ∧
    (∀ s ∈ c.pool.idle_states, s ∉ c.closed ∧ ∀ t, c.phase t ≠ .holding s) ∧
    (∀ a c' t s, step p c a = some c' → c'.phase t = .holding s → c.phase t ≠ .holding s →
      s ∉ c.closed ∧ ∀ u, c.phase u ≠ .holding s ∧ c.phase u ≠ .discarding s) ∧
    c.pool.idle_states.length + c.held + c.constructing ≤ max p.start_states p.max_states ∧
    c.pool.idle_states.length ≤ max p.start_states p.max_idle_states ∧
    c.held ≤ c.pool.active_states ∧
    (∀ t c', step p c (.close t) = some c' → c'.pool.active_states + 1 = c.pool.active_states) := by
  have hinv := poolInv_reachable h
  have hcount := hinv.ledger.counted
  have hbound := hinv.ledger.bounded
  refine ⟨?_, ?_, ?_, by omega, hinv.ledger.idle_le, by omega, ?_⟩
  · intro s hs
    rw [hinv.owned s, if_pos hs]
  · intro s hs
    exact ⟨(hinv.owned.apart hs).1, fun t => ((hinv.owned.apart hs).2 t).1⟩
  · intro a c' t s hs ht' ht
    exact (step_trans hs).handed_out hinv.owned ht' ht
  · intro t c' hs
    cases step_trans hs with
    | keep ht _ hm | discard ht _ hm =>
        have := hinv.ledger.active_pos ht
        simp only [hm.pool, hinv.ledger.active_sub ht]
        omega
    | park ha _ _ _ | take ha _ _ _ | begin ha _ _ _ _ => rcases ha with h | h <;> cases h

theorem exclusive_ownership_twoPool : ∃ c,
    Reachable (step twoPool) (Config.init twoPool : Config (Fin 3)) c ∧ c.closed = [1] ∧
    (∀ s < c.created, c.owners s = 1) ∧
    (∀ s ∈ c.pool.idle_states, s ∉ c.closed ∧ ∀ t, c.phase t ≠ .holding s) ∧
    (∀ a c' t s, step twoPool c a = some c' → c'.phase t = .holding s → c.phase t ≠ .holding s →
      s ∉ c.closed ∧ ∀ u, c.phase u ≠ .holding s ∧ c.phase u ≠ .discarding s) ∧
    c.pool.idle_states.length + c.held + c.constructing ≤ max 0 2 ∧
    c.pool.idle_states.length ≤ max 0 1 ∧
    c.held ≤ c.pool.active_states ∧
    (∀ t c', step twoPool c (.close t) = some c' → c'.pool.active_states + 1 = c.pool.active_states) :=
  have h := run_of_exec [Act.open 0, .open 1, .construct 0, .construct 1, .close 0, .close 1,
    .lua_close 1, .open (2 : Fin 3)] rfl
  ⟨_, ⟨_, h⟩, rfl, exclusive_ownership ⟨_, h⟩⟩

def idlelessPool : PoolParams := ⟨0, 1, 0, by decide, by decide, by decide⟩

theorem discarding_reachable : ∃ c,
    Reachable (step idlelessPool) (Config.init idlelessPool : Config Bool) c ∧
      c.created = 1 ∧ c.pool.idle_states = [] ∧ c.closed = [] ∧ c.constructing = 1 :=
  ⟨_, ⟨_, run_of_exec [.open false, .construct false, .close false, .open true] rfl⟩,
    rfl, rfl, rfl, by decide⟩

/-- Between releasing the mutex and `lua_close` a discarded state is neither idle nor closed. Whatever
states are taken to be held, a second caller constructing meanwhile exceeds the bound. -/
theorem discarded_state_unaccounted : ∃ c,
    Reachable (step idlelessPool) (Config.init idlelessPool : Config Bool) c ∧
    ∀ held : List Nat,
      (∀ s < c.created, c.pool.idle_states.count s + held.count s + c.closed.count s = 1) →
      ¬ c.pool.idle_states.length + held.length + c.constructing ≤
        max idlelessPool.start_states idlelessPool.max_states := by
  obtain ⟨c, hc, hcreated, hidle, hclosed, hconstructing⟩ := discarding_reachable
  refine ⟨c, hc, fun held hown => ?_⟩
  have hcount : held.count 0 = 1 := by
    simpa [hidle, hclosed] using hown 0 (by rw [hcreated]; exact Nat.one_pos)
  have hlen : held.count 0 ≤ held.length := List.count_le_length
  have hmax : max idlelessPool.start_states idlelessPool.max_states = 1 := rfl
  rw [hidle, hconstructing, hmax]
  omega

/-! ## The number of states handed out -/

/-- While started states are left, one caller after the other takes one. -/
theorem started_taken (p : PoolParams) (n : Nat) (hn : n ≤ p.start_states) :
    ∃ c : Config (Fin p.start_states), Reachable (step p) (Config.init p) c ∧
      c.pool.idle_states.length + n = p.start_states ∧ c.held = n ∧
      ∀ t : Fin p.start_states, n ≤ t.val → c.phase t = .out := by
  induction n with
  | zero =>
      refine ⟨Config.init p, ⟨[], .nil⟩, by simp [Config.init], ?_, fun _ _ => rfl⟩
      simp [Config.held, Config.init, tally]
  | succ n ih =>
      obtain ⟨c, ⟨tr, hrun⟩, hidle, hheld, hout⟩ := ih (by omega)
      have ht : c.phase ⟨n, hn⟩ = .out := hout ⟨n, hn⟩ (Nat.le_refl n)
      have hs : step p c (.open ⟨n, hn⟩) = some (c.enter p ⟨n, hn⟩) := by simp [step, ht]
      obtain ⟨front, rest, hi⟩ : ∃ front rest, c.pool.idle_states = front :: rest :=
        List.exists_cons_of_length_pos (by omega)
      rw [hi, List.length_cons] at hidle
      have hm : Moves c (c.enter p ⟨n, hn⟩) ⟨n, hn⟩ (.holding front) ⟨size_inc c.pool.active_states, rest⟩
          c.created c.closed := by
        unfold Config.enter Pool.open
        rw [if_neg (not_waits_of_cons hi), hi]
        exact moves_move ..
      refine ⟨_, ⟨_, .snoc hrun hs⟩, ?_, ?_, fun t hle => ?_⟩
      · rw [hm.pool]
        dsimp only
        omega
      · have hcount := hm.held
        simp only [ht, Phase.isHolding] at hcount
        omega
      · have hne : t ≠ ⟨n, hn⟩ := by
          rintro rfl
          simp at hle
        rw [hm.phase, Function.update_of_ne hne]
        exact hout t (by omega)

/-- However many callers there are, `max_states_` caps the states that are out, if and only if the pool was
not started with more. -/
theorem held_le_max_iff (p : PoolParams) :
    (∀ (T : Type) [DecidableEq T] [Fintype T] (c : Config T), Reachable (step p) (Config.init p) c →
      c.held ≤ p.max_states) ↔ p.start_states ≤ p.max_states := by
  constructor
  · intro h
    obtain ⟨c, hc, -, hheld, -⟩ := started_taken p p.start_states (Nat.le_refl _)
    rw [← hheld]
    exact h _ c hc
  · intro hle T _ _ c hc
    have hcount := (poolInv_reachable hc).ledger.counted
    have hbound := (poolInv_reachable hc).ledger.bounded
    omega

/-- Two callers take the two started states of a pool whose maximum is one. -/
theorem cap_exceeded : ∃ c : Config (Fin 2), Reachable (step overfullPool) (Config.init overfullPool) c ∧
    overfullPool.max_states < c.held :=
  ⟨_, ⟨_, run_of_exec [.open 0, .open 1] rfl⟩, by decide⟩

/-! ## The lock of `state_manager_main` -/

namespace Main

/-- One caller at a time has the state, and it is always the same state. Where it is back and a caller is
parked, a caller that had waited has been signalled, and gets the state unless another one is faster. -/
theorem main_lock {T : Type*} [DecidableEq T] [Fintype T] {state : Nat} {c : Config T}
    (h : Reachable step (Config.init state) c) :
    (∀ t u s s', c.phase t = .holding s → c.phase u = .holding s' → t = u) ∧
    (c.state_ ≠ none ↔ ∀ t s, c.phase t ≠ .holding s) ∧
    (∀ t s, c.phase t = .holding s → s = state) ∧
    (∀ s, c.state_ = some s → s = state) ∧
    (c.state_ ≠ none → (∃ t, c.phase t = .waiting .parked) →
      ∃ t, c.phase t = .waiting .signalled ∧ ∃ c', step c (.resume t) = some c' ∧ c'.phase t = .holding state) := by
  obtain ⟨⟨owner, hstate, hphase⟩, hwoken⟩ := mainInv_reachable h
  have hfree : ∀ s, c.state_ = some s → owner = none ∧ s = state := by
    intro s hs
    rw [hstate] at hs
    cases owner <;> simp_all
  refine ⟨?_, ?_, fun t s ht => ((hphase t s).mp ht).2, fun s hs => (hfree s hs).2, ?_⟩
  · intro t u s s' ht hu
    have htu := ((hphase t s).mp ht).1.symm.trans ((hphase u s').mp hu).1
    exact Option.some.inj htu
  · constructor
    · intro hs t s ht
      obtain ⟨s', hs'⟩ := Option.ne_none_iff_exists'.mp hs
      rw [(hfree s' hs').1] at hphase
      simpa using (hphase t s).mp ht
    · intro hnone hs
      cases howner : owner with
      | none => simp [hstate, howner] at hs
      | some t => exact hnone t state ((hphase t state).mpr ⟨howner, rfl⟩)
  · intro hs hparked
    obtain ⟨t, ht⟩ := noLostWakeup_iff.mp hwoken hparked hs
    obtain ⟨s, hs'⟩ := Option.ne_none_iff_exists'.mp hs
    obtain ⟨c', hc', hgot⟩ := resume_takes ht hs'
    rw [(hfree s hs').2] at hgot
    exact ⟨t, ht, c', hc', hgot⟩

/-- The state comes back while two callers are parked. -/
theorem main_lock_signalled : ∃ c : Config (Fin 3), Reachable step (Config.init 5) c ∧ c.state_ = some 5 ∧
    c.phase 2 = .waiting .parked ∧ ∃ t, c.phase t = .waiting .signalled ∧
      ∃ c', step c (.resume t) = some c' ∧ c'.phase t = .holding 5 := by
  have h : Run step (Config.init 5) _ _ :=
    run_of_exec [Act.open 0, .open 1, .open 2, .close (0 : Fin 3) (some 1)] rfl
  obtain ⟨-, -, -, -, hwoken⟩ := main_lock ⟨_, h⟩
  exact ⟨_, ⟨_, h⟩, rfl, rfl, hwoken (by simp [Config.move]) ⟨2, rfl⟩⟩

end Main

/-! ## Building a pool -/

/-- The `i`-th `construct()` is the first one that throws. -/
def FailsAt (p : PoolParams) (attempts : Nat → Attempt) (i : Nat) : Prop :=
  i < p.start_states ∧ (∀ j < i, (attempts j).Succeeds) ∧ ¬ (attempts i).Succeeds

def Config.Settled {T : Type*} (c : Config T) : Prop := ∀ t s, c.phase t ≠ .holding s ∧ c.phase t ≠ .discarding s

/-- A constructor that throws has closed every state of the rounds before, once. One that returns leaves
`start_states` distinct idle states, from which the callers start; and whatever they do, once no state is out
the destructor has left every state closed, once. -/
def AllOrNothing (p : PoolParams) (attempts : Nat → Attempt) : Prop :=
  match (state_manager_pool p attempts).exec .none with
  | (.error _, l) => ∀ i, FailsAt p attempts i → ∀ s < i, l.closed.count s = 1
  | (.ok pool, l) =>
      pool.active_states = 0 ∧ pool.idle_states.length = p.start_states ∧ pool.idle_states.Nodup ∧
      ∀ (T : Type) [DecidableEq T] [Fintype T] (c : Config T),
        Reachable (step p) ⟨pool, fun _ => .out, l.created, l.closed⟩ c → c.Settled →
          ∀ s < c.created, ((state_manager_pool_dtor c.pool).exec ⟨c.created, c.closed⟩).2.closed.count s = 1

/-- What the destructor closes is what nobody else owns. -/
theorem settled_owners {T : Type*} [Fintype T] {c : Config T} (h : c.Settled) (s : Nat) :
    c.owners s = c.pool.idle_states.count s + c.closed.count s := by
  have hholds : tally (Phase.holds s) c.phase = 0 := by
    refine tally_eq_zero.mpr fun t => ?_
    cases hph : c.phase t with
    | holding s' => exact absurd hph (h t s').1
    | _ => rfl
  have hdiscards : tally (Phase.discards s) c.phase = 0 := by
    refine tally_eq_zero.mpr fun t => ?_
    cases hph : c.phase t with
    | discarding s' => exact absurd hph (h t s').2
    | _ => rfl
  rw [Config.owners, hholds, hdiscards, Nat.add_zero]

/-- Building a pool is all or nothing unless a `construct()` throws after another one has returned. -/
theorem all_or_nothing_iff (p : PoolParams) (attempts : Nat → Attempt) :
    AllOrNothing p attempts ↔ ¬ (attempts 0).Succeeds ∨ ∀ i < p.start_states, (attempts i).Succeeds := by
  by_cases hall : ∀ i < p.start_states, (attempts i).Succeeds
  · have hexec : (state_manager_pool p attempts).exec .none =
        (.ok ⟨0, List.range p.start_states⟩, ⟨p.start_states, []⟩) := by
      rw [state_manager_pool, Prog.exec_bind_of_ok (fold_push_idle_exec hall)]
      rfl
    refine iff_of_true ?_ (Or.inr hall)
    unfold AllOrNothing
    rw [hexec]
    refine ⟨rfl, List.length_range, List.nodup_range, ?_⟩
    intro T _ _ c hc hsettled s hs
    have howned := (poolInv_reachable (p := p) hc).owned s
    rw [settled_owners hsettled, if_pos hs] at howned
    rw [state_manager_pool_dtor_exec, List.count_append, List.count_reverse, howned]
  · obtain ⟨i, hi⟩ : ∃ i, FailsAt p attempts i := by
      classical
      push Not at hall
      refine ⟨Nat.find hall, (Nat.find_spec hall).1, fun j hj => ?_, (Nat.find_spec hall).2⟩
      by_contra hfails
      exact Nat.find_min hall hj ⟨Nat.lt_trans hj (Nat.find_spec hall).1, hfails⟩
    obtain ⟨e, l, hexec, hleaked⟩ := fold_push_idle_throws hi.1 hi.2.1 hi.2.2
    have hthrows : (state_manager_pool p attempts).exec .none = (.error e, l) := by
      rw [state_manager_pool, Prog.exec_bind_of_error hexec]
    unfold AllOrNothing
    rw [hthrows]
    constructor
    · intro hclosed
      refine Or.inl fun hzero => ?_
      have hpos : 0 < i := Nat.pos_of_ne_zero fun h0 => hi.2.2 (h0 ▸ hzero)
      have hone := hclosed i hi 0 hpos
      rw [hleaked 0 hpos] at hone
      exact Nat.zero_ne_one hone
    · rintro (hzero | hall')
      · intro j hj s hs
        exact absurd (hj.2.1 0 (Nat.zero_lt_of_lt hs)) hzero
      · exact absurd hall' hall

/-- A chunk that raises an error in its second state. -/
def second_raises (i : Nat) : Attempt := ⟨true, 0, if i = 1 then .error (some (bytes "x")) else .ok ()⟩

/-- The first of two states is never closed. -/
theorem first_state_leaked :
    ((state_manager_pool overfullPool second_raises).exec .none).2.created = 2 ∧
      ((state_manager_pool overfullPool second_raises).exec .none).2.closed = [1] ∧
      ¬ AllOrNothing overfullPool second_raises := by
  have hexec : (state_manager_pool overfullPool second_raises).exec .none =
      (.error (.runtime_error (bytes "x")), ⟨2, [1]⟩) := by rfl
  refine ⟨by rw [hexec], by rw [hexec], fun h => ?_⟩
  unfold AllOrNothing at h
  rw [hexec] at h
  have hfails : FailsAt overfullPool second_raises 1 := by
    refine ⟨by decide, fun j hj => ?_, fun hs => ?_⟩
    · obtain rfl : j = 0 := by omega
      exact ⟨rfl, rfl, rfl⟩
    · cases hs.2.2
  have hone := h 1 hfails 0 (by decide)
  simp at hone

end DromozoaFuse.Manager
