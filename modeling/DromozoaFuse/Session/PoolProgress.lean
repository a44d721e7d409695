import DromozoaFuse.Manager.Progress
import DromozoaFuse.Session.Progress

/-!
# Sessions on a pool that come to an end

A callback that gets a state of the pool comes through, and a thread that has to wait for one in `open()` is never
woken up.
-/

namespace DromozoaFuse.Session.Pool

open Base Lua Operations Fill

variable {T : Type} [DecidableEq T] {p : Manager.PoolParams}

/-! ## Callers of the pool -/

/-- The phases of a caller before and after a step of its own. -/
inductive Goes : Manager.Act T → Manager.Phase → Manager.Phase → Prop
  | park {a : Manager.Act T} {t} {ph : Manager.Phase} : a.Enters t → ph.MayEnter → Goes a ph (.waiting .parked)
  | take {a : Manager.Act T} {t} {ph : Manager.Phase} {s} : a.Enters t → ph.MayEnter → Goes a ph (.holding s)
  | begin {a : Manager.Act T} {t} {ph : Manager.Phase} : a.Enters t → ph.MayEnter → Goes a ph .constructing
  | wake {t} : Goes (.wake t) (.waiting .parked) (.waiting .spurious)
  | construct {t s} : Goes (.construct t) .constructing (.holding s)
  | throw {t} : Goes (.throw t) .constructing .out
  | keep {t s} : Goes (.close t) (.holding s) .out
  | discard {t s} : Goes (.close t) (.holding s) (.discarding s)
  | lua_close {t s} : Goes (.lua_close t) (.discarding s) .out

theorem goes {c c' : Manager.Config T} {a : Manager.Act T} (h : Manager.step p c a = some c') :
    Goes a (c.phase (pool_caller a)) (c'.phase (pool_caller a)) ∧ ∀ u, u ≠ pool_caller a → c'.phase u = c.phase u := by
  have hmoved : ∀ {t ph pool created closed}, Manager.Moves c c' t ph pool created closed → pool_caller a = t →
      Goes a (c.phase t) ph →
      Goes a (c.phase (pool_caller a)) (c'.phase (pool_caller a)) ∧
        ∀ u, u ≠ pool_caller a → c'.phase u = c.phase u := by
    rintro t ph pool created closed hm rfl hgoes
    rw [hm.phase, Function.update_self]
    exact ⟨hgoes, fun u hu => Function.update_of_ne hu ..⟩
  have henters : ∀ {t}, a.Enters t → pool_caller a = t := by
    rintro t (rfl | rfl) <;> rfl
  cases Manager.step_trans h with
  | park ha hmay _ hm => exact hmoved hm (henters ha) (.park ha hmay)
  | take ha hmay _ hm => exact hmoved hm (henters ha) (.take ha hmay)
  | begin ha hmay _ _ hm => exact hmoved hm (henters ha) (.begin ha hmay)
  | wake ht hm => exact hmoved hm rfl (ht ▸ .wake)
  | construct ht hm => exact hmoved hm rfl (ht ▸ .construct)
  | throw ht hm => exact hmoved hm rfl (ht ▸ .throw)
  | keep ht _ hm => exact hmoved hm rfl (ht ▸ .keep)
  | discard ht _ hm => exact hmoved hm rfl (ht ▸ .discard)
  | lua_close ht hm => exact hmoved hm rfl (ht ▸ .lua_close)

/-! ## Where a thread stands -/

variable {X : Type} {I : Interp (Host X)}

/-- Where a thread stands in its session, and where in the pool. -/
def Fits (ph : Manager.Phase) : Job X → Prop
  | .idle => ph = .out
  | .opening .. => ph = .out ∨ ph = .constructing ∨ ∃ w, ph = .waiting w
  | .ready s .. | .running s .. | .closing s => ph = .holding s
  | .leaving => ∃ s, ph = .discarding s

/-- What is left to do for a thread that nobody wakes up. -/
def work : Job X × Manager.Phase → Nat
  | (.idle, _) | (.opening .., .waiting .parked) => 0
  | (.leaving, _) => 1
  | (.closing _, _) => 2
  | (.running .., _) => 3
  | (.ready .., _) => 4
  | (.opening .., .constructing) => 5
  | (.opening .., _) => 6

theorem work_opening {ph : Manager.Phase} (h : ph.MayEnter) (task : Task) (m : Memory) :
    work ((.opening task m : Job X), ph) = 6 := by
  rcases h with rfl | rfl | rfl <;> rfl

omit [DecidableEq T] in
/-- A step of the pool leaves its caller where it belongs, and with less to do. -/
theorem Goes.manages {a : Manager.Act T} {ph ph' : Manager.Phase} {job job' : Job X} {held : Option Nat}
    (hgoes : Goes a ph ph') (hheld : ∀ s, held = some s ↔ ph' = .holding s)
    (hm : Manages (pool_closes a) held (ph' = .out) job job') (hfits : Fits ph job) :
    Fits ph' job' ∧ ((∀ t, a ≠ .wake t) → work (job', ph') < work (job, ph)) := by
  cases hm with
  | @opened task m s _ hs =>
      obtain rfl := (hheld s).mp hs
      refine ⟨rfl, fun _ => ?_⟩
      cases hgoes with
      | take _ hmay =>
          rw [work_opening hmay]
          exact Nat.lt_of_sub_eq_succ rfl
      | construct => exact Nat.lt_add_one 4
  | failed hcloses _ hout =>
      obtain rfl := of_decide_eq_true hout
      refine ⟨rfl, fun _ => ?_⟩
      cases hgoes with
      | throw => exact Nat.zero_lt_succ 4
      | keep | lua_close => cases hcloses
  | waits hcloses hnone hout =>
      have hnot : ∀ s, ph' ≠ .holding s := fun s hs => by
        rw [(hheld s).mpr hs] at hnone
        cases hnone
      cases hgoes with
      | park _ hmay =>
          rw [work_opening hmay]
          exact ⟨Or.inr (Or.inr ⟨_, rfl⟩), fun _ => Nat.zero_lt_succ 5⟩
      | begin _ hmay =>
          rw [work_opening hmay]
          exact ⟨Or.inr (Or.inl rfl), fun _ => Nat.lt_add_one 5⟩
      | wake => exact ⟨Or.inr (Or.inr ⟨_, rfl⟩), fun hwake => absurd rfl (hwake _)⟩
      | take | construct => exact absurd rfl (hnot _)
      | throw => cases hout
      | keep | discard | lua_close => cases hcloses
  | closed _ =>
      obtain rfl : ph = _ := hfits
      cases hgoes with
      | keep => exact ⟨rfl, fun _ => Nat.zero_lt_succ 1⟩
      | discard => exact ⟨⟨_, rfl⟩, fun _ => Nat.lt_add_one 1⟩
      | park _ hmay | take _ hmay | begin _ hmay => rcases hmay with hmay | hmay | hmay <;> cases hmay
  | left _ =>
      obtain ⟨s, rfl⟩ := hfits
      cases hgoes with
      | lua_close => exact ⟨rfl, fun _ => Nat.lt_add_one 0⟩
      | park _ hmay | take _ hmay | begin _ hmay => rcases hmay with hmay | hmay | hmay <;> cases hmay

/-! ## Work that is left -/

variable [Fintype T]

/-- Neither a new callback, nor a script besides the callbacks, nor a spurious wake-up, nor, unless it `throws`, an
exception from `construct()`. -/
def Settles (throws : Bool) (_ : Config (state_manager_pool T p) X) : Act (state_manager_pool T p) X → Prop
  | .call .. | .script .. | .manage (Manager.Act.wake _) => False
  | .manage (Manager.Act.throw _) => throws = true
  | _ => True

def Stands (c : Config (state_manager_pool T p) X) : Prop := ∀ t, Fits (c.manager.phase t) (c.job t)

def load (c : Config (state_manager_pool T p) X) : Nat := tally work fun t => (c.job t, c.manager.phase t)

theorem stands_init (roots : Nat → Value) (heaps : Nat → Heap (Host X)) :
    Stands (Config.init (state_manager_pool T p) roots heaps) :=
  fun _ => rfl

theorem Stands.move {c : Config (state_manager_pool T p) X} (h : Stands c) {t : T} {job : Job X} {notes : List Note}
    (hfits : Fits (c.manager.phase t) job) : Stands (c.move t job notes) :=
  Config.forall_move (P := fun u job => Fits (c.manager.phase u) job) (fun u _ => h u) hfits

theorem pool_manages {c c' : Config (state_manager_pool T p) X} {a : Manager.Act T} {manager : Manager.Config T}
    (h : Stands c) (hs : Manager.step p c.manager a = some manager) (hm : Managed c a manager c') :
    Fits (manager.phase (pool_caller a)) (c'.job (pool_caller a)) ∧
      ((∀ t, a ≠ .wake t) → work (c'.job (pool_caller a), manager.phase (pool_caller a)) <
        work (c.job (pool_caller a), c.manager.phase (pool_caller a))) :=
  (goes hs).1.manages (fun _ => pool_held_eq) hm.manages (h (pool_caller a))

theorem stands_step (c : Config (state_manager_pool T p) X) (a : Act (state_manager_pool T p) X)
    (c' : Config (state_manager_pool T p) X) (h : Stands c) (hs : step I c a = some c') : Stands c' := by
  have hfits : ∀ {t job}, c.job t = job → Fits (c.manager.phase t) job := by
    rintro t _ rfl
    exact h t
  cases step_trans hs with
  | call hjob => exact h.move (Or.inl (hfits hjob))
  | @manage a manager _ hmanager hmanaged =>
      intro u
      rw [hmanaged.manager]
      by_cases hu : u = pool_caller a
      · rw [hu]
        exact (pool_manages h hmanager hmanaged).1
      · rw [hmanaged.others hu, (goes hmanager).2 u hu]
        exact h u
  | @start t s task m l stack w hjob _ _ =>
      have hheld : c.manager.phase t = .holding s := hfits hjob
      have hset : Stands (c.setLua s none) := h
      exact hset.move hheld
  | @finish t s after events hjob =>
      have hheld : c.manager.phase t = .holding s := hfits hjob
      have hset : Stands (c.setLua s (some after)) := h
      exact hset.move hheld
  | script _ => exact h

theorem load_lt_of {c c' : Config (state_manager_pool T p) X} {t : T}
    (hothers : ∀ u, u ≠ t → c'.job u = c.job u ∧ c'.manager.phase u = c.manager.phase u)
    (ht : work (c'.job t, c'.manager.phase t) < work (c.job t, c.manager.phase t)) : load c' < load c := by
  have hsame : ∀ u, u ≠ t → work (c'.job u, c'.manager.phase u) = work (c.job u, c.manager.phase u) := by
    intro u hu
    rw [(hothers u hu).1, (hothers u hu).2]
  have hmoved : load c' + work (c.job t, c.manager.phase t) = load c + work (c'.job t, c'.manager.phase t) :=
    tally_moved hsame
  omega

theorem load_lt (c : Config (state_manager_pool T p) X) (a : Act (state_manager_pool T p) X)
    (c' : Config (state_manager_pool T p) X) (ha : Settles true c a ∧ Stands c) (hs : step I c a = some c') :
    load c' < load c := by
  obtain ⟨hsettles, hstands⟩ := ha
  have hmove : ∀ {c : Config (state_manager_pool T p) X} {t job notes},
      work (job, c.manager.phase t) < work (c.job t, c.manager.phase t) → load (c.move t job notes) < load c := by
    intro c t job notes hwork
    apply load_lt_of (t := t)
    · exact fun u hu => ⟨Function.update_of_ne hu .., rfl⟩
    · simpa [Config.move] using hwork
  cases step_trans hs with
  | call _ => exact hsettles.elim
  | @manage a manager _ hmanager hmanaged =>
      have hwake : ∀ t, a ≠ Manager.Act.wake t := by
        rintro t rfl
        exact hsettles
      apply load_lt_of (t := pool_caller a)
      · intro u hu
        rw [hmanaged.manager]
        exact ⟨hmanaged.others hu, (goes hmanager).2 u hu⟩
      · rw [hmanaged.manager]
        exact (pool_manages hstands hmanager hmanaged).2 hwake
  | @start t s task m l stack w hjob _ _ =>
      have hwork : load (Config.move (c.setLua s none) t (.running s ⟨stack, w.heap⟩ w.trace) []) <
          load (c.setLua s none) := by
        apply hmove
        rw [Config.setLua_job, hjob]
        exact Nat.lt_add_one 3
      exact hwork
  | @finish t s after events hjob =>
      have hwork : load (Config.move (c.setLua s (some after)) t (.closing s) [.ran events]) <
          load (c.setLua s (some after)) := by
        apply hmove
        rw [Config.setLua_job, hjob]
        exact Nat.lt_add_one 2
      exact hwork
  | script _ => exact hsettles.elim

/-! ## Where nothing goes on -/

theorem stuck_manage {throws : Bool} {c : Config (state_manager_pool T p) X}
    (h : ∀ a, Settles throws c a → step I c a = none) {a : Manager.Act T} (ha : Settles throws c (.manage a))
    {manager : Manager.Config T} (hs : Manager.step p c.manager a = some manager) : c.managed a manager = none := by
  have hnone : (Manager.step p c.manager a).bind (c.managed a) = none := h (.manage a) ha
  rwa [hs] at hnone

theorem stuck_job {throws : Bool} {roots : Nat → Value} {c : Config (state_manager_pool T p) X}
    (hinv : SessionInv roots c) (hstands : Stands c) (h : ∀ a, Settles throws c a → step I c a = none) (t : T) :
    c.job t = .idle ∨ (∃ task m, c.job t = .opening task m ∧ c.manager.phase t = .waiting .parked) ∨
      ∃ s task m l, c.job t = .ready s task m ∧ c.lua s = some l ∧ Raises I task m l := by
  have hstand := hstands t
  cases hjob : c.job t with
  | idle => exact Or.inl rfl
  | «opening» task m =>
      rw [hjob] at hstand
      have hopens : ∀ (a : Manager.Act T) manager, pool_caller a = t → pool_closes a = false →
          Settles throws c (.manage a) → Manager.step p c.manager a ≠ some manager := by
        rintro a manager rfl hcloses ha hs
        exact managed_of_opening hjob hcloses (stuck_manage h ha hs)
      rcases hstand with hout | hconstructing | ⟨w, hw⟩
      · exact absurd (if_pos hout) (hopens (.open t) _ rfl rfl trivial)
      · exact absurd (if_pos hconstructing) (hopens (.construct t) _ rfl rfl trivial)
      · cases w with
        | parked => exact Or.inr (Or.inl ⟨task, m, rfl, hw⟩)
        | signalled => exact absurd (if_pos (Or.inl hw)) (hopens (.resume t) _ rfl rfl trivial)
        | spurious => exact absurd (if_pos (Or.inr hw)) (hopens (.resume t) _ rfl rfl trivial)
  | ready s task m =>
      obtain ⟨l, hlua, hraises⟩ := hinv.ready_stuck hjob (h (.start t) trivial)
      exact Or.inr (Or.inr ⟨s, task, m, l, rfl, hlua, hraises⟩)
  | running s after events => simpa [step, hjob] using h (.finish t) trivial
  | closing s =>
      rw [hjob] at hstand
      have ha : Settles throws c (.manage (Manager.Act.close t)) := trivial
      exact absurd (stuck_manage h ha (Manager.step_close hstand)) (managed_of_closing hjob rfl)
  | leaving =>
      rw [hjob] at hstand
      obtain ⟨s, hs⟩ := hstand
      have hlua_close : Manager.step p c.manager (.lua_close t) =
          some (Manager.Config.move { c.manager with closed := s :: c.manager.closed } t .out) := by
        simp only [Manager.step, hs]
      have ha : Settles throws c (.manage (Manager.Act.lua_close t)) := trivial
      exact absurd (stuck_manage h ha hlua_close) (managed_of_leaving hjob rfl)

/-- Every state that was built is idle, or closed, or with a thread whose callback does not come back. -/
theorem stuck_state {throws : Bool} {roots : Nat → Value} {c : Config (state_manager_pool T p) X}
    (hinv : SessionInv roots c) (hpool : Manager.PoolInv p c.manager) (hstands : Stands c)
    (h : ∀ a, Settles throws c a → step I c a = none) {s : Nat} (hs : s < c.manager.created) :
    s ∈ c.manager.pool.idle_states ∨ s ∈ c.manager.closed ∨ ∃ t task m, c.job t = .ready s task m := by
  have hphase : ∀ t ph, c.manager.phase t = ph →
      ph = .out ∨ ph = .waiting .parked ∨ ∃ s task m, c.job t = .ready s task m ∧ ph = .holding s := by
    rintro t _ rfl
    have hstand := hstands t
    rcases stuck_job hinv hstands h t with hidle | ⟨task, m, _, hparked⟩ | ⟨s, task, m, l, hready, _, _⟩
    · rw [hidle] at hstand
      exact Or.inl hstand
    · exact Or.inr (Or.inl hparked)
    · rw [hready] at hstand
      exact Or.inr (Or.inr ⟨s, task, m, hready, hstand⟩)
  by_cases hheld : ∃ t, c.manager.phase t = .holding s
  · obtain ⟨t, ht⟩ := hheld
    rcases hphase t _ ht with hout | hparked | ⟨s', task, m, hready, hs'⟩
    · cases hout
    · cases hparked
    · cases hs'
      exact Or.inr (Or.inr ⟨t, task, m, hready⟩)
  have howned : Manager.Config.owners c.manager s = 1 := (hpool.owned s).trans (if_pos hs)
  have hholds : tally (Manager.Phase.holds s) c.manager.phase = 0 := by
    apply tally_eq_zero.mpr
    intro t
    cases ht : c.manager.phase t with
    | holding s' => exact if_neg (fun hss => hheld ⟨t, by rw [ht, hss]⟩)
    | _ => rfl
  have hdiscards : tally (Manager.Phase.discards s) c.manager.phase = 0 := by
    apply tally_eq_zero.mpr
    intro t
    rcases hphase t _ rfl with hph | hph | ⟨_, _, _, -, hph⟩ <;> (rw [hph]; rfl)
  unfold Manager.Config.owners at howned
  rw [hholds, hdiscards] at howned
  by_cases hidle : 0 < c.manager.pool.idle_states.count s
  · exact Or.inl (List.count_pos_iff.mp hidle)
  · apply Or.inr
    apply Or.inl
    apply List.count_pos_iff.mp
    omega

theorem settled_length {c c' : Config (state_manager_pool T p) X}
    {tr : List (Config (state_manager_pool T p) X × Act (state_manager_pool T p) X)} (hstands : Stands c)
    (hrun : Run (step I) c tr c') (hsettles : EveryStep (Settles true) tr) : tr.length ≤ Fintype.card T * 6 := by
  have hstep : EveryStep (fun c a => Settles true c a ∧ Stands c) tr :=
    fun q hq => ⟨hsettles q hq, (hrun.always hstands stands_step).1 q hq⟩
  have hlength : tr.length + load c' ≤ load c := hrun.length_le load_lt hstep
  have hload : load c ≤ Fintype.card T * 6 := by
    apply tally_le
    rintro ⟨job, ph⟩
    fun_cases work (job, ph) <;> decide
  omega

/-- From wherever the threads of a session stand, once no new callback is called, no script runs besides the callbacks
and nobody wakes up spuriously, the steps that are left are at most six for each thread. Where there is none left every
thread is idle, or parked in `open()`, or an error escapes from its callback, and no state is lost but those that such
callbacks have. -/
theorem pool_sessions_drain {roots : Nat → Value} {heaps : Nat → Heap (Host X)}
    {c c' : Config (state_manager_pool T p) X}
    (h : Reachable (step I) (Config.init (state_manager_pool T p) roots heaps) c)
    {tr : List (Config (state_manager_pool T p) X × Act (state_manager_pool T p) X)}
    (hrun : Run (step I) c tr c') (hsettles : EveryStep (Settles true) tr) :
    tr.length ≤ Fintype.card T * 6 ∧
      ((∀ a, Settles true c' a → step I c' a = none) →
        (∀ t, c'.job t = .idle ∨ (∃ task m, c'.job t = .opening task m ∧ c'.manager.phase t = .waiting .parked) ∨
          ∃ s task m l, c'.job t = .ready s task m ∧ c'.lua s = some l ∧ Raises I task m l) ∧
        ∀ s, s < c'.manager.created → s ∈ c'.manager.pool.idle_states ∨ s ∈ c'.manager.closed ∨
          ∃ t task m, c'.job t = .ready s task m) := by
  have hreachable := h.trans ⟨tr, hrun⟩
  have hinv := hreachable.invariant (sessionInv_init roots heaps) (sessionInv_step I)
  have hstands := hreachable.invariant (stands_init roots heaps) stands_step
  constructor
  · exact settled_length (h.invariant (stands_init roots heaps) stands_step) hrun hsettles
  · exact fun hstuck => ⟨stuck_job hinv hstands hstuck, fun s => stuck_state hinv
      (Manager.poolInv_reachable (manager_reachable hreachable)) hstands hstuck⟩

/-- Two threads run `destroy` on a pool for one state, and the second one never gets it. -/
theorem pool_sessions_drain_destroy : ∃ tr, ∃ c c' : Config (state_manager_pool (Fin 2) Manager.onePool) Unit,
    Reachable (step (.constant (.ok .nil)))
      (Config.init (state_manager_pool (Fin 2) Manager.onePool) (fun _ => .table 0) fun _ => destroyable) c ∧
    Run (step (.constant (.ok .nil))) c tr c' ∧ c'.manager.phase 1 = .waiting .parked ∧ tr.length = 6 ∧
    tr.length ≤ 12 := by
  obtain ⟨⟨tr₀, c⟩, hexec₀, hexec⟩ : ∃ r, exec (step (.constant (.ok .nil)))
      (Config.init (state_manager_pool (Fin 2) Manager.onePool) (fun _ => .table 0) fun _ => destroyable)
      [.call 0 (.callback .destroy) .zeroed, .call 1 (.callback .destroy) .zeroed] = some r ∧
        (exec (step (.constant (.ok .nil))) r.2 [.manage (Manager.Act.open 0), .manage (Manager.Act.construct 0),
          .manage (Manager.Act.open 1), .start 0, .finish 0, .manage (Manager.Act.close 0)]).map
            (fun r => r.2.manager.phase 1) = some (.waiting .parked) := ⟨_, rfl, by decide +kernel⟩
  obtain ⟨⟨tr, c'⟩, hexec, hparked⟩ := Option.map_eq_some_iff.mp hexec
  have hlabels := exec_labels _ hexec
  have hreachable : Reachable _ _ c := ⟨tr₀, run_of_exec _ hexec₀⟩
  have hrun := run_of_exec _ hexec
  have hsettles : EveryStep (Settles true) tr := by
    intro q hq
    have hlabel : q.2 ∈ tr.map Prod.snd := List.mem_map_of_mem hq
    rw [hlabels] at hlabel
    simp only [List.mem_cons, List.not_mem_nil, or_false] at hlabel
    rcases hlabel with hlabel | hlabel | hlabel | hlabel | hlabel | hlabel <;> (rw [hlabel]; trivial)
  refine ⟨tr, c, c', hreachable, hrun, hparked, ?_, (pool_sessions_drain hreachable hrun hsettles).1⟩
  rw [← List.length_map, hlabels]
  rfl

end DromozoaFuse.Session.Pool
