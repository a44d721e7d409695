import DromozoaFuse.Session.Linear
import DromozoaFuse.Session.PoolProgress

/-!
# Services on a pool

Where the scripts implement a service, nothing but the pool can keep a callback from coming through. So all callbacks
of all sessions come through with exactly those sizes of the pool with which nobody ever waits in it.
-/

namespace DromozoaFuse.Session.Pool

open Base Lua Operations Fill

variable {T : Type} [DecidableEq T] {X σ : Type} {I : Interp (Host X)}

/-! ## A session and its manager -/

def managing {M : StateManager T} : Config M X × Act M X → Option M.Act
  | (_, .manage a) => some a
  | _ => none

theorem manager_run {M : StateManager T} {roots : Nat → Value} {heaps : Nat → Heap (Host X)}
    {tr : List (Config M X × Act M X)} {c : Config M X} (h : Run (step I) (Config.init M roots heaps) tr c) :
    ∃ tr', Run M.step M.init tr' c.manager ∧ tr'.map Prod.snd = tr.filterMap managing := by
  have hshown : ∃ tr' m, Run M.step M.init tr' m ∧ tr'.map Prod.snd = tr.filterMap managing ∧ c.manager = m := by
    apply h.shown (C := fun _ _ => True) (R := fun c m => c.manager = m) rfl
    · rintro c a c' m rfl - hs hnone
      cases step_trans hs with
      | manage _ _ => cases hnone
      | _ => rfl
    · rintro c a c' m b rfl - hs hb
      cases step_trans hs with
      | manage hmanager hmanaged =>
          cases hb
          exact ⟨_, hmanager, hmanaged.manager⟩
      | _ => cases hb
    · exact fun _ _ => trivial
  obtain ⟨tr', m, hrun, hlabels, rfl⟩ := hshown
  exact ⟨tr', hrun, hlabels⟩

variable [Fintype T] {p : Manager.PoolParams}

/-- No exception from `construct()`, unless it `throws`. -/
def Unthrown (throws : Bool) (_ : Config (state_manager_pool T p) X) : Act (state_manager_pool T p) X → Prop
  | .manage (Manager.Act.throw _) => throws = true
  | _ => True

theorem unthrown_manage {throws : Bool} {c : Config (state_manager_pool T p) X} {m : Manager.Config T}
    {a : Manager.Act T} : Unthrown throws c (.manage a) ↔ throws = true ∨ Manager.NoThrow m a := by
  cases a <;> simp [Unthrown, Manager.NoThrow]

/-- The session sees no exception from `construct()` if the pool sees none. -/
theorem unthrown_iff {throws : Bool} {tr : List (Config (state_manager_pool T p) X × Act (state_manager_pool T p) X)}
    {tr' : List (Manager.Config T × Manager.Act T)} (hlabels : tr'.map Prod.snd = tr.filterMap managing) :
    EveryStep (Unthrown throws) tr ↔ throws = true ∨ EveryStep Manager.NoThrow tr' := by
  constructor
  · intro h
    rw [or_iff_not_imp_left]
    intro hthrows q hq
    have hlabel : q.2 ∈ tr.filterMap managing := by
      rw [← hlabels]
      exact List.mem_map_of_mem hq
    obtain ⟨⟨c, a⟩, hmem, ha⟩ := List.mem_filterMap.mp hlabel
    have hstep := h (c, a) hmem
    cases a with
    | manage a =>
        obtain rfl : a = q.2 := Option.some.inj ha
        exact (unthrown_manage.mp hstep).resolve_left hthrows
    | _ => cases ha
  · rintro h ⟨c, a⟩ hq
    cases a with
    | manage a =>
        have hlabel : a ∈ tr'.map Prod.snd := by
          rw [hlabels]
          exact List.mem_filterMap.mpr ⟨_, hq, rfl⟩
        obtain ⟨⟨m, _⟩, hmem, rfl⟩ := List.mem_map.mp hlabel
        exact unthrown_manage.mpr (h.imp_right fun hthrow => hthrow _ hmem)
    | _ => trivial

/-! ## Sizes -/

/-- The pool starts with a state for every thread and keeps them, or may build one for every thread. -/
def Enough (T : Type) [Fintype T] (throws : Bool) (p : Manager.PoolParams) : Prop :=
  Fintype.card T ≤ min p.start_states p.max_idle_states ∨ throws = false ∧ Fintype.card T ≤ p.max_states

theorem Enough.unparked {throws : Bool} (h : Enough T throws p) {tr : List (Manager.Config T × Manager.Act T)}
    {m : Manager.Config T} (hrun : Run (Manager.step p) (.init p) tr m) (hthrow : EveryStep Manager.NoThrow tr) :
    ¬ m.Parked := by
  rcases h with hidle | ⟨-, hmax⟩
  · exact (Manager.roomy_reachable hidle ⟨tr, hrun⟩).unparked
  · exact Manager.unparked_of_max hmax hrun hthrow

theorem parks_of_not_enough {throws : Bool} (h : ¬ Enough T throws p) :
    ∃ (tr : List (Manager.Config T × Manager.Act T)) (m : Manager.Config T), Run (Manager.step p) (.init p) tr m ∧
      (throws = true ∨ EveryStep Manager.NoThrow tr) ∧ m.Parked := by
  rw [Enough, not_or, not_le, not_and] at h
  obtain ⟨hidle, hmax⟩ := h
  cases throws with
  | false =>
      obtain ⟨m, ⟨tr, hrun, hthrow⟩, hparked⟩ := Manager.parks_of_few (T := T) (not_le.mp (hmax rfl)) hidle
      exact ⟨tr, m, hrun, Or.inr hthrow, hparked⟩
  | true =>
      obtain ⟨m, ⟨tr, hrun⟩, hparked⟩ := Manager.parks_of_throwing (T := T) hidle
      exact ⟨tr, m, hrun, Or.inl rfl, hparked⟩

/-! ## Nobody is refused -/

omit [DecidableEq T] [Fintype T] in
/-- An `open()` that comes back without a state has had its exception from `construct()`. -/
theorem Goes.thrown {a : Manager.Act T} {ph : Manager.Phase} (h : Goes a ph .out) (ha : pool_closes a = false) :
    ∃ t, a = .throw t := by
  cases h with
  | throw => exact ⟨_, rfl⟩
  | keep | lua_close => cases ha

theorem not_failed_step {c c' : Config (state_manager_pool T p) X} {a : Act (state_manager_pool T p) X}
    (ha : Unthrown false c a) (hs : step I c a = some c') (h : ∀ t, Note.failed ∉ c.log t) (t : T) :
    Note.failed ∉ c'.log t := by
  have hmove : ∀ {c : Config (state_manager_pool T p) X} {u job notes}, (∀ t, Note.failed ∉ c.log t) →
      Note.failed ∉ notes → Note.failed ∉ (c.move u job notes).log t := by
    intro c u job notes h hnotes
    rw [Config.move_log]
    split
    · rw [List.mem_append, not_or]
      exact ⟨h u, hnotes⟩
    · exact h t
  cases step_trans hs with
  | call _ => exact hmove h (by simp)
  | @manage a manager _ hmanager hmanaged =>
      have hlog : ∀ t, Note.failed ∉ Config.log (M := state_manager_pool T p) ⟨manager, c.lua, c.job, c.log⟩ t := h
      cases hmanaged with
      | opened _ _ _ | closed _ _ => exact hmove hlog (by simp)
      | left _ _ => exact hmove hlog (by simp)
      | waits _ _ _ _ => exact hlog t
      | failed _ hcloses _ hout =>
          have hout : manager.phase (pool_caller a) = .out := of_decide_eq_true hout
          have hgoes := (goes hmanager).1
          rw [hout] at hgoes
          obtain ⟨u, rfl⟩ := hgoes.thrown hcloses
          cases ha
  | @start u s _ _ _ stack w _ _ _ =>
      have hlog : ∀ t, Note.failed ∉ (c.setLua s none).log t := h
      exact hmove hlog (by simp)
  | @finish u s after events _ =>
      have hlog : ∀ t, Note.failed ∉ (c.setLua s (some after)).log t := h
      exact hmove hlog (by simp)
  | script _ => exact h t

theorem not_failed {roots : Nat → Value} {heaps : Nat → Heap (Host X)}
    {tr : List (Config (state_manager_pool T p) X × Act (state_manager_pool T p) X)}
    {c : Config (state_manager_pool T p) X} (h : Run (step I) (Config.init (state_manager_pool T p) roots heaps) tr c)
    (hunthrown : EveryStep (Unthrown false) tr) (t : T) : Note.failed ∉ c.log t := by
  induction h generalizing t with
  | nil => exact List.not_mem_nil
  | snoc _ hs ih =>
      obtain ⟨hunthrown, ha⟩ := everyStep_snoc.mp hunthrown
      exact not_failed_step ha hs (ih hunthrown) t

/-- With enough states nothing has to be built that may not be built. -/
theorem Enough.unthrown {throws : Bool} (h : Enough T throws p) {roots : Nat → Value} {heaps : Nat → Heap (Host X)}
    {tr : List (Config (state_manager_pool T p) X × Act (state_manager_pool T p) X)}
    {c : Config (state_manager_pool T p) X}
    (hrun : Run (step I) (Config.init (state_manager_pool T p) roots heaps) tr c)
    (hunthrown : EveryStep (Unthrown throws) tr) : EveryStep (Unthrown false) tr := by
  rcases h with hidle | ⟨rfl, -⟩
  · have hstep : ∀ (c : Config (state_manager_pool T p) X) a c', Manager.Roomy p c.manager → step I c a = some c' →
        Manager.Roomy p c'.manager := by
      intro c a c' hroomy hs
      cases step_trans hs with
      | manage hmanager hmanaged =>
          rw [hmanaged.manager]
          exact Manager.roomy_step (le_trans hidle (min_le_right _ _)) _ _ _ hroomy hmanager
      | _ => exact hroomy
    have hroomy : Always (fun c => Manager.Roomy p c.manager) tr c := by
      refine hrun.always ?_ hstep
      exact Manager.roomy_reachable hidle .refl
    rintro ⟨c₁, a⟩ hq
    obtain ⟨c₂, hs⟩ := hrun.step_of_mem hq
    cases step_trans hs with
    | @manage a manager _ hmanager _ =>
        have hthrow := (hroomy.1 _ hq).noThrow hmanager
        cases a with
        | throw t => exact hthrow.elim
        | _ => trivial
    | _ => trivial
  · exact hunthrown

/-! ## A session for every run of the pool -/

/-- A thread that is called as late and runs its callback as soon as it can be. -/
inductive Eager : Manager.Phase → Job X → Prop
  | idle : Eager .out .idle
  | opening {ph task m} : ph ≠ .out → Eager ph (.opening task m)
  | closing {s} : Eager (.holding s) (.closing s)
  | leaving {s} : Eager (.discarding s) .leaving

/-- After a step of the pool a thread is so, or it has got a state and can run its callback. -/
theorem Eager.manages {closes : Bool} {held : Option Nat} {ph : Manager.Phase} {job job' : Job X}
    (hm : Manages closes held (ph = .out) job job') (hfits : Fits ph job') :
    (∃ s task m, job' = .ready s task m) ∨ Eager ph job' := by
  cases hm with
  | opened _ _ => exact Or.inl ⟨_, _, _, rfl⟩
  | failed _ _ _ =>
      obtain rfl : ph = .out := hfits
      exact Or.inr .idle
  | waits _ _ hout => exact Or.inr (.opening (of_decide_eq_false hout))
  | closed _ | left _ =>
      apply Or.inr
      split at hfits
      · obtain rfl : ph = .out := hfits
        exact .idle
      · obtain ⟨s, rfl⟩ := hfits
        exact .leaving

omit [DecidableEq T] [Fintype T] in
theorem Goes.closes {a : Manager.Act T} {ph ph' : Manager.Phase} (h : Goes a ph ph') :
    pool_closes a = true ↔ ∃ s, ph = .holding s ∨ ph = .discarding s := by
  cases h with
  | park ha hmay | take ha hmay | begin ha hmay =>
      rcases ha with rfl | rfl <;> rcases hmay with rfl | rfl | rfl <;> simp [pool_closes]
  | _ => simp [pool_closes]

omit [DecidableEq T] [Fintype T] in
/-- What such a thread has to be about for the pool to make a step for it. -/
theorem Eager.able {a : Manager.Act T} {ph ph' : Manager.Phase} {job : Job X} (h : Eager ph job) (hfits : Fits ph job)
    (hgoes : Goes a ph ph') :
    (job = .idle ∧ pool_closes a = false) ∨ ((∃ task m, job = .opening task m) ∧ pool_closes a = false) ∨
      ((∃ s, job = .closing s) ∨ job = .leaving) ∧ pool_closes a = true := by
  rw [← Bool.not_eq_true, hgoes.closes]
  cases h with
  | idle => exact Or.inl ⟨rfl, by simp⟩
  | opening _ =>
      refine Or.inr (Or.inl ⟨⟨_, _, rfl⟩, ?_⟩)
      rcases hfits with rfl | rfl | ⟨w, rfl⟩ <;> simp
  | closing => exact Or.inr (Or.inr ⟨Or.inl ⟨_, rfl⟩, _, Or.inl rfl⟩)
  | leaving => exact Or.inr (Or.inr ⟨Or.inr rfl, _, Or.inr rfl⟩)

variable {A : Service σ} {roots : Nat → Value} {R : Nat → Heap (Host X) → σ → Prop} {heaps : Nat → Heap (Host X)}

/-- A session in which the pool has made these steps. -/
def Lifted (I : Interp (Host X)) (roots : Nat → Value) (R : Nat → Heap (Host X) → σ → Prop)
    (heaps : Nat → Heap (Host X)) (c : Config (state_manager_pool T p) X) (as : List (Manager.Act T)) : Prop :=
  ∃ tr, Run (step I) (Config.init (state_manager_pool T p) roots heaps) tr c ∧ EveryStep (Orderly R) tr ∧
    tr.filterMap managing = as

namespace Lifted

variable {c c' : Config (state_manager_pool T p) X} {as : List (Manager.Act T)}

theorem quiet (h : Lifted I roots R heaps c as) {a : Act (state_manager_pool T p) X} (hs : step I c a = some c')
    (horderly : Orderly R c a) (ha : managing (c, a) = none) : Lifted I roots R heaps c' as := by
  obtain ⟨tr, hrun, htr, rfl⟩ := h
  refine ⟨_, .snoc hrun hs, everyStep_snoc.mpr ⟨htr, horderly⟩, ?_⟩
  simp [ha]

theorem manage (h : Lifted I roots R heaps c as) {a : Manager.Act T} (hs : step I c (.manage a) = some c') :
    Lifted I roots R heaps c' (as ++ [a]) := by
  obtain ⟨tr, hrun, htr, rfl⟩ := h
  refine ⟨_, .snoc hrun hs, everyStep_snoc.mpr ⟨htr, trivial⟩, ?_⟩
  rw [List.filterMap_append]
  rfl

theorem stands (h : Lifted I roots R heaps c as) : Stands c := by
  obtain ⟨tr, hrun, -⟩ := h
  exact Reachable.invariant (stands_init roots heaps) stands_step ⟨tr, hrun⟩

/-- A thread that has a state runs its callback. -/
theorem through {start : Nat → σ} (himpl : ∀ s, Implements I (roots s) (R s) A) (hR : ∀ s, R s (heaps s) (start s))
    (h : Lifted I roots R heaps c as) {t : T} {s : Nat} {task : Task} {m : Memory} (hjob : c.job t = .ready s task m) :
    ∃ c', Lifted I roots R heaps c' as ∧ c'.manager = c.manager ∧ c'.job t = .closing s ∧
      ∀ u, u ≠ t → c'.job u = c.job u := by
  obtain ⟨tr, hrun, htr, -⟩ := id h
  obtain ⟨-, l, -, -, hmatches⟩ := Matches.run himpl (matches_init hR) hrun htr
  obtain ⟨c₁, hs₁⟩ : ∃ c₁, step I c (.start t) = some c₁ := by
    by_contra hnone
    obtain ⟨lua, hlua, hraises⟩ :=
      hmatches.session.ready_stuck hjob (Option.eq_none_iff_forall_ne_some.mpr fun c₁ hs => hnone ⟨c₁, hs⟩)
    exact hmatches.raises_not himpl hjob hlua hraises
  have h₁ := h.quiet hs₁ trivial rfl
  cases step_trans hs₁ with
  | @start _ s' _ _ lua stack w hjob' _ _ =>
      obtain rfl : s = s' := by
        rw [hjob] at hjob'
        cases hjob'
        rfl
      have hrunning : (Config.move (c.setLua s none) t (.running s ⟨stack, w.heap⟩ w.trace) []).job t =
          .running s ⟨stack, w.heap⟩ w.trace := Function.update_self ..
      refine ⟨_, h₁.quiet (step_finish hrunning) trivial rfl, rfl, Function.update_self .., fun u hu => ?_⟩
      simp only [Config.move, Config.setLua_job, Function.update_of_ne hu]

/-- What the pool can do, a session in which it has come there can have it do. -/
theorem tail {start : Nat → σ} (himpl : ∀ s, Implements I (roots s) (R s) A) (hR : ∀ s, R s (heaps s) (start s))
    (h : Lifted I roots R heaps c as) (heager : ∀ t, Eager (c.manager.phase t) (c.job t)) {a : Manager.Act T}
    {m : Manager.Config T} (hs : Manager.step p c.manager a = some m) :
    ∃ c' : Config (state_manager_pool T p) X, Lifted I roots R heaps c' (as ++ [a]) ∧ c'.manager = m ∧
      ∀ t, Eager (m.phase t) (c'.job t) := by
  obtain ⟨hgoes, hphases⟩ := goes hs
  obtain ⟨c₁, h₁, hmanager, hjobs, hable⟩ : ∃ c₁ : Config (state_manager_pool T p) X, Lifted I roots R heaps c₁ as ∧
      c₁.manager = c.manager ∧ (∀ u, u ≠ pool_caller a → c₁.job u = c.job u) ∧ c₁.managed a m ≠ none := by
    rcases (heager (pool_caller a)).able (h.stands (pool_caller a)) hgoes with
      ⟨hidle, hcloses⟩ | ⟨⟨task, m', hopening⟩, hcloses⟩ | ⟨⟨s, hclosing⟩ | hleaving, hcloses⟩
    · have hcalled := step_call (I := I) .operations .zeroed hidle
      refine ⟨_, h.quiet hcalled trivial rfl, rfl, fun u hu => Function.update_of_ne hu .., ?_⟩
      exact managed_of_opening (Function.update_self ..) hcloses
    · exact ⟨c, h, rfl, fun _ _ => rfl, managed_of_opening hopening hcloses⟩
    · exact ⟨c, h, rfl, fun _ _ => rfl, managed_of_closing hclosing hcloses⟩
    · exact ⟨c, h, rfl, fun _ _ => rfl, managed_of_leaving hleaving hcloses⟩
  obtain ⟨c₂, hc₂⟩ := Option.ne_none_iff_exists'.mp hable
  have hmanaged := managed_cases hc₂
  have hs₂ : step I c₁ (.manage a) = some c₂ := by
    change (Manager.step p c₁.manager a).bind (c₁.managed a) = some c₂
    rw [hmanager, hs]
    exact hc₂
  have h₂ := h₁.manage hs₂
  obtain rfl : c₂.manager = m := hmanaged.manager
  have hothers : ∀ u, u ≠ pool_caller a → Eager (c₂.manager.phase u) (c₂.job u) := by
    intro u hu
    rw [hphases u hu, hmanaged.others hu, hjobs u hu]
    exact heager u
  rcases Eager.manages hmanaged.manages (h₂.stands (pool_caller a)) with ⟨s, task, m, hready⟩ | hcaller
  · have hready : c₂.job (pool_caller a) = .ready s task m := hready
    obtain ⟨c₃, h₃, hmanager₃, hclosing, hjobs₃⟩ := h₂.through himpl hR hready
    refine ⟨c₃, h₃, hmanager₃, fun u => ?_⟩
    by_cases hu : u = pool_caller a
    · have hheld := h₃.stands (pool_caller a)
      rw [hclosing] at hheld
      obtain hheld : c₃.manager.phase (pool_caller a) = .holding s := hheld
      rw [hu, hclosing, ← hmanager₃, hheld]
      exact .closing
    · rw [hjobs₃ u hu]
      exact hothers u hu
  · refine ⟨c₂, h₂, rfl, fun u => ?_⟩
    by_cases hu : u = pool_caller a
    · rw [hu]
      exact hcaller
    · exact hothers u hu

theorem run {start : Nat → σ} (himpl : ∀ s, Implements I (roots s) (R s) A) (hR : ∀ s, R s (heaps s) (start s))
    {tr : List (Manager.Config T × Manager.Act T)} {m : Manager.Config T} (h : Run (Manager.step p) (.init p) tr m) :
    ∃ c : Config (state_manager_pool T p) X, Lifted I roots R heaps c (tr.map Prod.snd) ∧ c.manager = m ∧
      ∀ t, Eager (m.phase t) (c.job t) := by
  induction h with
  | nil => exact ⟨_, ⟨[], .nil, by simp [EveryStep], rfl⟩, rfl, fun _ => .idle⟩
  | snoc _ hs ih =>
      obtain ⟨c, hlifted, rfl, heager⟩ := ih
      rw [List.map_append]
      exact hlifted.tail himpl hR heager hs

end Lifted

/-! ## Sessions -/

theorem Settles.orderly {throws : Bool} {c : Config (state_manager_pool T p) X} {a : Act (state_manager_pool T p) X}
    (h : Settles throws c a) : Orderly R c a := by
  cases a with
  | call t task m | script s heap => exact h.elim
  | manage a | start t | finish t => trivial

theorem Settles.unthrown {throws : Bool} {c : Config (state_manager_pool T p) X} {a : Act (state_manager_pool T p) X}
    (h : Settles throws c a) : Unthrown throws c a := by
  cases a with
  | manage a =>
      cases a with
      | throw t => exact h
      | _ => trivial
  | _ => trivial

theorem Settles.throws {throws : Bool} {c : Config (state_manager_pool T p) X} {a : Act (state_manager_pool T p) X}
    (h : Settles throws c a) : Settles true c a := by
  cases a with
  | manage a =>
      cases a with
      | throw t => rfl
      | _ => exact h
  | _ => exact h

theorem Settles.wakes_not {throws : Bool} {c : Config (state_manager_pool T p) X}
    {a : Act (state_manager_pool T p) X} (h : Settles throws c a) (t : T) : a ≠ .manage (Manager.Act.wake t) := by
  rintro rfl
  exact h

omit [DecidableEq T] [Fintype T] in
theorem Fits.parked {job : Job X} (h : Fits (.waiting .parked) job) : ∃ task m, job = .opening task m := by
  cases job with
  | «opening» task m => exact ⟨task, m, rfl⟩
  | leaving =>
      obtain ⟨s, hs⟩ := h
      cases hs
  | _ => cases h

omit [DecidableEq T] [Fintype T] in
/-- The one step that a parked thread can make is to wake up. -/
theorem Goes.wakes {a : Manager.Act T} {ph : Manager.Phase} (h : Goes a (.waiting .parked) ph) :
    a = .wake (pool_caller a) := by
  cases h with
  | park _ hmay | take _ hmay | begin _ hmay => rcases hmay with hmay | hmay | hmay <;> cases hmay
  | wake => rfl

/-- A thread of the session is parked in `open()`. -/
def ParkedIn (c : Config (state_manager_pool T p) X) (t : T) (task : Task) (m : Memory) : Prop :=
  c.manager.phase t = .waiting .parked ∧ c.job t = .opening task m

theorem parked_step {c c' : Config (state_manager_pool T p) X} {a : Act (state_manager_pool T p) X} {t : T}
    (hwake : a ≠ .manage (Manager.Act.wake t)) (hs : step I c a = some c') {task : Task} {m : Memory}
    (h : ParkedIn c t task m) : ParkedIn c' t task m := by
  obtain ⟨hphase, hjob⟩ := h
  have hothers : ∀ {u}, (∀ task m, c.job u ≠ .opening task m) → t ≠ u := by
    rintro _ hu rfl
    exact hu task m hjob
  cases step_trans hs with
  | @call u _ _ hu =>
      refine ⟨hphase, ?_⟩
      rw [Config.move_job, if_neg (hothers (by simp [hu])), hjob]
  | @manage a manager _ hmanager hmanaged =>
      obtain ⟨hgoes, hphases⟩ := goes hmanager
      have ht : t ≠ pool_caller a := by
        rintro rfl
        rw [hphase] at hgoes
        exact hwake (congrArg Act.manage hgoes.wakes)
      refine ⟨?_, (hmanaged.others ht).trans hjob⟩
      rw [hmanaged.manager, hphases t ht, hphase]
  | @start u s _ _ _ stack w hu _ _ =>
      refine ⟨hphase, ?_⟩
      rw [Config.move_job, if_neg (hothers (by simp [hu]))]
      exact hjob
  | @finish u s after events hu =>
      refine ⟨hphase, ?_⟩
      rw [Config.move_job, if_neg (hothers (by simp [hu]))]
      exact hjob
  | script _ => exact ⟨hphase, hjob⟩

theorem parked_run {c c' : Config (state_manager_pool T p) X}
    {tr : List (Config (state_manager_pool T p) X × Act (state_manager_pool T p) X)} {t : T}
    (hrun : Run (step I) c tr c') (hwake : EveryStep (fun _ a => a ≠ .manage (Manager.Act.wake t)) tr) {task : Task}
    {m : Memory} (h : ParkedIn c t task m) : ParkedIn c' t task m := by
  induction hrun with
  | nil => exact h
  | snoc _ hs ih =>
      obtain ⟨hwake, ha⟩ := everyStep_snoc.mp hwake
      exact parked_step ha hs (ih hwake)

/-- From wherever a session stands, the callbacks that are left can come through as far as they can. -/
theorem settled (I : Interp (Host X)) (throws : Bool) {c : Config (state_manager_pool T p) X} (hstands : Stands c) :
    ∃ tr c', Run (step I) c tr c' ∧ EveryStep (Settles throws) tr ∧ ∀ a, Settles throws c' a → step I c' a = none := by
  have hlower : ∀ (c : Config (state_manager_pool T p) X) a c', Settles throws c a ∧ Stands c →
      step I c a = some c' → load c' < load c :=
    fun c a c' ha hs => load_lt c a c' ⟨ha.1.throws, ha.2⟩ hs
  obtain ⟨tr, c', hrun, hsettles, hstuck⟩ := Run.exhausted hlower c
  have hstands' := (hrun.always hstands stands_step).2
  exact ⟨tr, c', hrun, fun q hq => (hsettles q hq).1, fun a ha => hstuck a ⟨ha, hstands'⟩⟩

/-- Wherever nothing is left to do in a session, all callbacks have come through and nobody was refused. -/
def Served (T : Type) [DecidableEq T] [Fintype T] (p : Manager.PoolParams) (throws : Bool) (I : Interp (Host X))
    (roots : Nat → Value) (R : Nat → Heap (Host X) → σ → Prop) (heaps : Nat → Heap (Host X)) : Prop :=
  ∀ (tr : List (Config (state_manager_pool T p) X × Act (state_manager_pool T p) X)) c,
    Run (step I) (Config.init (state_manager_pool T p) roots heaps) tr c → EveryStep (Orderly R) tr →
    EveryStep (Unthrown throws) tr → (∀ a, Settles throws c a → step I c a = none) →
    ∀ t, c.job t = .idle ∧ Note.failed ∉ c.log t

/-- Some session comes to its end with a thread parked in `open()`, which never leaves it unless it wakes up by
itself. -/
def Stranded (T : Type) [DecidableEq T] [Fintype T] (p : Manager.PoolParams) (throws : Bool) (I : Interp (Host X))
    (roots : Nat → Value) (R : Nat → Heap (Host X) → σ → Prop) (heaps : Nat → Heap (Host X)) : Prop :=
  ∃ (tr : List (Config (state_manager_pool T p) X × Act (state_manager_pool T p) X)) (c : _) (t : T) (task : _) (m : _),
    Run (step I) (Config.init (state_manager_pool T p) roots heaps) tr c ∧ EveryStep (Orderly R) tr ∧
    EveryStep (Unthrown throws) tr ∧ (∀ a, Settles throws c a → step I c a = none) ∧ ParkedIn c t task m ∧
    ∀ tr' c', Run (step I) c tr' c' → EveryStep (fun _ a => a ≠ .manage (Manager.Act.wake t)) tr' →
      ParkedIn c' t task m

/-- With any other sizes some session comes to such an end. -/
theorem stranded_of_not_enough {start : Nat → σ} {throws : Bool} (himpl : ∀ s, Implements I (roots s) (R s) A)
    (hR : ∀ s, R s (heaps s) (start s)) (henough : ¬ Enough T throws p) :
    Stranded T p throws I roots R heaps := by
  obtain ⟨tr, m, hrun, hthrow, t, hparked⟩ := parks_of_not_enough henough
  obtain ⟨c, hlifted, rfl, -⟩ := Lifted.run (X := X) himpl hR hrun
  obtain ⟨tr₁, hrun₁, horderly, hlabels⟩ := id hlifted
  have hunthrown : EveryStep (Unthrown throws) tr₁ := (unthrown_iff hlabels.symm).mpr hthrow
  have hstand := hlifted.stands t
  rw [hparked] at hstand
  obtain ⟨task, m, hopening⟩ := hstand.parked
  obtain ⟨tr₂, c', hrun₂, hsettles, hstuck⟩ := settled I throws hlifted.stands
  have hstays : ParkedIn c' t task m := parked_run hrun₂ (fun q hq => (hsettles q hq).wakes_not t) ⟨hparked, hopening⟩
  refine ⟨tr₁ ++ tr₂, c', t, task, m, hrun₁.append hrun₂, ?_, ?_, hstuck, hstays, ?_⟩
  · exact List.forall_mem_append.mpr ⟨horderly, fun q hq => (hsettles q hq).orderly⟩
  · exact List.forall_mem_append.mpr ⟨hunthrown, fun q hq => (hsettles q hq).unthrown⟩
  · exact fun tr' c'' hrun' hwake => parked_run hrun' hwake hstays

theorem Stranded.not_served {throws : Bool} (h : Stranded T p throws I roots R heaps) :
    ¬ Served T p throws I roots R heaps := by
  intro hserved
  obtain ⟨tr, c, t, task, m, hrun, horderly, hunthrown, hstuck, ⟨-, hopening⟩, -⟩ := h
  cases hopening.symm.trans (hserved tr c hrun horderly hunthrown hstuck t).1

/-- With scripts that implement a service, all callbacks of all sessions come through if and only if the pool starts
with a state for every thread and keeps them, or, unless `construct()` throws, may build one for every thread. With any
other sizes some session leaves a thread parked for ever. -/
theorem pool_sessions_served_iff {start : Nat → σ} (throws : Bool) (himpl : ∀ s, Implements I (roots s) (R s) A)
    (hR : ∀ s, R s (heaps s) (start s)) :
    (Served T p throws I roots R heaps ↔
      Fintype.card T ≤ min p.start_states p.max_idle_states ∨ throws = false ∧ Fintype.card T ≤ p.max_states) ∧
    (¬ (Fintype.card T ≤ min p.start_states p.max_idle_states ∨ throws = false ∧ Fintype.card T ≤ p.max_states) →
      Stranded T p throws I roots R heaps) := by
  change (_ ↔ Enough T throws p) ∧ (¬ Enough T throws p → _)
  refine ⟨⟨fun h => ?_, fun henough tr c hrun horderly hunthrown hstuck t => ?_⟩, stranded_of_not_enough himpl hR⟩
  · by_contra henough
    exact (stranded_of_not_enough himpl hR henough).not_served h
  · have hreachable : Reachable (step I) (Config.init (state_manager_pool T p) roots heaps) c := ⟨tr, hrun⟩
    have hinv := hreachable.invariant (sessionInv_init roots heaps) (sessionInv_step I)
    have hstands := hreachable.invariant (stands_init roots heaps) stands_step
    have hunthrown' := henough.unthrown hrun hunthrown
    refine ⟨?_, not_failed hrun hunthrown' t⟩
    rcases stuck_job hinv hstands hstuck t with hidle | ⟨task, m, -, hparked⟩ | ⟨s, task, m, lua, hready, hlua, hraises⟩
    · exact hidle
    · obtain ⟨tr', hrun', hlabels⟩ := manager_run hrun
      have hthrow := ((unthrown_iff hlabels).mp hunthrown').resolve_left Bool.false_ne_true
      exact absurd ⟨t, hparked⟩ (henough.unparked hrun' hthrow)
    · obtain ⟨-, l, -, -, hmatches⟩ := Matches.run himpl (matches_init hR) hrun horderly
      exact absurd hraises (hmatches.raises_not himpl hready hlua)

/-- Two threads get through a pool that may build two states, and one of them can be left parked in one that may build
one. -/
theorem pool_sessions_served_iff_two :
    Served (Fin 2) Manager.twoPool false keeping (fun _ => .table 0) (fun _ => Operations.Kept) (fun _ => kept_heap) ∧
      Stranded (Fin 2) Manager.onePool false keeping (fun _ => .table 0) (fun _ => Operations.Kept)
        fun _ => kept_heap := by
  constructor
  · exact (pool_sessions_served_iff false (fun _ => keeping_implements) fun _ => kept_heap_kept).1.mpr (by decide)
  · exact (pool_sessions_served_iff false (fun _ => keeping_implements) fun _ => kept_heap_kept).2 (by decide)

end DromozoaFuse.Session.Pool
