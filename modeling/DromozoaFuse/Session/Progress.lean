import DromozoaFuse.Manager.Lemmas.MainInvariants
import DromozoaFuse.Session.Lemmas.Steps
import DromozoaFuse.Session.Theorems

/-!
# Sessions that come to an end

With `state_manager_main` every callback that has been called comes through, one after the other. Only a
callback out of which an error escapes keeps the state, and the others, for ever.
-/

namespace DromozoaFuse.Session

open Base Lua Operations Fill Manager

variable {T : Type} [DecidableEq T] {X : Type} {I : Interp (Host X)}

/-! ## Callers of `state_manager_main` -/

variable [Fintype T] {state : Nat}

/-- Where a thread stands in its session, and where in the manager. -/
def Job.Stands (ph : Main.Phase) : Job X → Prop
  | .idle => ph = .out
  | .opening .. => ph = .out ∨ ∃ w, ph = .waiting w
  | .ready s .. | .running s .. | .closing s => ph = .holding s
  | .leaving => False

def Stands (c : Config (state_manager_main T state) X) : Prop := ∀ t, (c.job t).Stands (c.manager.phase t)

theorem Stands.move {c : Config (state_manager_main T state) X} {t : T} {job : Job X} {notes : List Note}
    (hothers : ∀ u, u ≠ t → (c.job u).Stands (c.manager.phase u)) (hjob : job.Stands (c.manager.phase t)) :
    Stands (c.move t job notes) :=
  Config.forall_move (P := fun u job => job.Stands (c.manager.phase u)) hothers hjob

theorem phase_others {c c' : Main.Config T} {a : Main.Act T} {u : T} (hs : Main.step c a = some c')
    (hu : u ≠ main_caller a) :
    c'.phase u = c.phase u ∨ (c.phase u = .waiting .parked ∧ c'.phase u = .waiting .signalled) := by
  have hmove : ∀ (c : Main.Config T) {t} ph, u ≠ t → (c.move t ph).phase u = c.phase u :=
    fun _ _ _ hut => Function.update_of_ne hut ..
  cases Main.step_trans hs with
  | enter ha _ =>
      apply Or.inl
      rcases ha with rfl | rfl <;> (unfold Main.Config.enter; split <;> exact hmove _ _ hu)
  | wake _ => exact Or.inl (hmove _ _ hu)
  | @signal t v _ _ hv _ =>
      by_cases huv : u = v
      · subst huv
        exact Or.inr ⟨hv, Function.update_self ..⟩
      · exact Or.inl ((hmove _ _ huv).trans (hmove _ _ hu))
  | close _ _ => exact Or.inl (hmove _ _ hu)

theorem phase_closed {c c' : Main.Config T} {a : Main.Act T} (hs : Main.step c a = some c')
    (ha : main_closes a = true) : c'.phase (main_caller a) = .out := by
  cases Main.step_trans hs with
  | enter ha' _ => rcases ha' with rfl | rfl <;> cases ha
  | wake _ => cases ha
  | signal _ _ hne => exact (Function.update_of_ne hne.symm ..).trans (Function.update_self ..)
  | close _ _ => exact Function.update_self ..

theorem Job.Stands.signalled {job : Job X} {ph ph' : Main.Phase} (h : job.Stands ph)
    (hph : ph' = ph ∨ (ph = .waiting .parked ∧ ph' = .waiting .signalled)) : job.Stands ph' := by
  rcases hph with rfl | ⟨rfl, rfl⟩
  · exact h
  · cases job <;> simp_all [Job.Stands]

theorem stands_manage {c c' : Config (state_manager_main T state) X} {a : Main.Act T} {manager : Main.Config T}
    (h : Stands c) (hs : Main.step c.manager a = some manager) (hm : Managed c a manager c') : Stands c' := by
  have hothers : ∀ u, u ≠ main_caller a → (c.job u).Stands (manager.phase u) :=
    fun u hu => (h u).signalled (phase_others hs hu)
  cases hm with
  | opened _ _ hheld => exact .move hothers (main_held_eq.mp hheld)
  | failed _ _ _ hout =>
      have hout : manager.phase (main_caller a) = .out := of_decide_eq_true hout
      exact .move hothers hout
  | @waits task m hjob _ hheld _ =>
      intro u
      by_cases hu : u = main_caller a
      · subst hu
        change Job.Stands (manager.phase _) (c.job (main_caller a))
        change c.job (main_caller a) = _ at hjob
        change main_held manager (main_caller a) = none at hheld
        rw [hjob]
        unfold main_held at hheld
        cases hph : manager.phase (main_caller a) <;> simp_all [Job.Stands]
      · exact hothers u hu
  | closed _ hcloses =>
      have hout : manager.phase (main_caller a) = .out := phase_closed hs hcloses
      apply Stands.move hothers
      rw [if_pos]
      · exact hout
      · exact decide_eq_true hout
  | left hjob _ =>
      have hleaving := h (main_caller a)
      change c.job (main_caller a) = _ at hjob
      rw [hjob] at hleaving
      exact hleaving.elim

theorem stands_step (c : Config (state_manager_main T state) X) (a : Act (state_manager_main T state) X)
    (c' : Config (state_manager_main T state) X) (h : Stands c) (hs : step I c a = some c') : Stands c' := by
  have hothers : ∀ t u, u ≠ t → (c.job u).Stands (c.manager.phase u) := fun _ u _ => h u
  cases step_trans hs with
  | @call t task m hjob =>
      have hout := h t
      rw [hjob] at hout
      exact .move (hothers t) (Or.inl hout)
  | manage hmanager hmanaged => exact stands_manage h hmanager hmanaged
  | @start t s task m l stack w hjob _ _ =>
      have hheld := h t
      rw [hjob] at hheld
      exact .move (hothers t) hheld
  | @finish t s after events hjob =>
      have hheld := h t
      rw [hjob] at hheld
      exact .move (hothers t) hheld
  | script _ => exact h

/-! ## Work that is left -/

/-- Neither a new callback, nor a script besides the callbacks, nor a spurious wake-up. -/
def Settles (_ : Config (state_manager_main T state) X) : Act (state_manager_main T state) X → Prop
  | .call .. | .script .. | .manage (Main.Act.wake _) => False
  | _ => True

def work : Job X × Main.Phase → Nat
  | (.idle, _) | (.leaving, _) => 0
  | (.closing _, _) => 2
  | (.running .., _) => 3
  | (.ready .., _) | (.opening .., .waiting .parked) => 4
  | (.opening .., _) => 5

def load (job : T → Job X) (c : Main.Config T) : Nat := tally work fun t => (job t, c.phase t)

omit [DecidableEq T] in
theorem load_moved {job job' : T → Job X} {c c' : Main.Config T} {t : T}
    (h : ∀ u, u ≠ t → work (job' u, c'.phase u) = work (job u, c.phase u)) :
    load job' c' + work (job t, c.phase t) = load job c + work (job' t, c'.phase t) :=
  tally_moved h

theorem load_update (job : T → Job X) (c : Main.Config T) (t : T) (j : Job X) :
    load (Function.update job t j) c + work (job t, c.phase t) = load job c + work (j, c.phase t) := by
  have hothers : ∀ u, u ≠ t → work (Function.update job t j u, c.phase u) = work (job u, c.phase u) := by
    intro u hu
    rw [Function.update_of_ne hu]
  have hmoved := load_moved hothers
  rwa [Function.update_self] at hmoved

omit [Fintype T] in
theorem enter_phase (c : Main.Config T) (t u : T) :
    (c.enter t).phase u = if u = t then (match c.state_ with | none => .waiting .parked | some s => .holding s)
      else c.phase u := by
  unfold Main.Config.enter
  cases c.state_ <;> simp [Main.Config.move, Function.update_apply]

theorem entered {c c' : Main.Config T} {a : Main.Act T} (hs : Main.step c a = some c') (ha : main_closes a = false)
    (hwake : ∀ t, a ≠ .wake t) : c' = c.enter (main_caller a) ∧ c.phase (main_caller a) ≠ .waiting .parked := by
  cases a with
  | «open» t =>
      simp only [Main.step, Option.ite_none_right_eq_some, Option.some.injEq] at hs
      obtain ⟨ht, rfl⟩ := hs
      exact ⟨rfl, by simp [main_caller, ht]⟩
  | wake t => exact absurd rfl (hwake t)
  | resume t =>
      simp only [Main.step, Option.ite_none_right_eq_some, Option.some.injEq] at hs
      obtain ⟨ht, rfl⟩ := hs
      exact ⟨rfl, by rcases ht with ht | ht <;> simp [main_caller, ht]⟩
  | close t signalled => cases ha

theorem load_entered {job : T → Job X} {c c' : Main.Config T} {a : Main.Act T} {task : Task} {m : Memory}
    (hs : Main.step c a = some c') (ha : main_closes a = false) (hwake : ∀ t, a ≠ .wake t)
    (hjob : job (main_caller a) = .opening task m) :
    load job c' + 5 = load job c + work ((.opening task m : Job X), c'.phase (main_caller a)) := by
  obtain ⟨rfl, hparked⟩ := entered hs ha hwake
  have hwork : work (job (main_caller a), c.phase (main_caller a)) = 5 := by
    rw [hjob]
    cases hph : c.phase (main_caller a) <;> simp_all [work]
  rw [← hwork, ← hjob]
  apply load_moved
  intro u hu
  rw [enter_phase, if_neg hu]

/-- A caller that has to wait is parked. -/
theorem parked_of_entered {c c' : Main.Config T} {a : Main.Act T} (hs : Main.step c a = some c')
    (ha : main_closes a = false) (hwake : ∀ t, a ≠ .wake t) (hheld : main_held c' (main_caller a) = none) :
    c'.phase (main_caller a) = .waiting .parked := by
  obtain ⟨rfl, -⟩ := entered hs ha hwake
  rw [main_held, enter_phase, if_pos rfl] at hheld
  rw [enter_phase, if_pos rfl]
  cases hstate : c.state_ with
  | none => rfl
  | some s =>
      rw [hstate] at hheld
      cases hheld

/-- The caller that is signalled has to get through `open()` once more. -/
theorem load_closed {job : T → Job X} {c c' : Main.Config T} {a : Main.Act T} {s : Nat}
    (hs : Main.step c a = some c') (ha : main_closes a = true) (hjob : job (main_caller a) = .closing s) :
    load job c' ≤ load job c + 1 := by
  cases Main.step_trans hs with
  | enter ha' _ => rcases ha' with rfl | rfl <;> cases ha
  | wake _ => cases ha
  | @signal t u state _ hu hne =>
      change job t = _ at hjob
      have hmoved : load job (Main.Config.move (Main.Config.move { c with state_ := some state } t .out) u
          (.waiting .signalled)) + _ =
          load job c + _ := load_moved (t := u) fun v hv => by
        by_cases hvt : v = t
        · rw [hvt, hjob]
          rfl
        · simp only [Main.Config.move, Function.update_of_ne hv, Function.update_of_ne hvt]
      have hone : work (job u, .waiting .signalled) ≤ work (job u, .waiting .parked) + 1 := by
        cases job u <;> simp [work]
      simp only [Main.Config.move, Function.update_self, hu] at hmoved hone ⊢
      omega
  | @close t state _ _ =>
      change job t = _ at hjob
      have hmoved : load job (Main.Config.move { c with state_ := some state } t .out) + _ = load job c + _ :=
        load_moved (t := t) fun v hv => by simp only [Main.Config.move, Function.update_of_ne hv]
      rw [hjob] at hmoved
      exact Nat.le_succ_of_le (Nat.add_right_cancel hmoved).le

theorem load_managed {c c' : Config (state_manager_main T state) X} {a : Main.Act T} {manager : Main.Config T}
    (h : Stands c) (hwake : ∀ t, a ≠ .wake t) (hs : Main.step c.manager a = some manager)
    (hm : Managed c a manager c') : load c'.job c'.manager < load c.job c.manager := by
  have hupdate := load_update c.job manager (main_caller a)
  cases hm with
  | @opened task m s hjob hcloses hheld =>
      change c.job (main_caller a) = _ at hjob
      have hentered := load_entered hs hcloses hwake hjob
      have hmoved := hupdate (.ready s task m)
      rw [hjob] at hmoved
      have hready : work ((.ready s task m : Job X), manager.phase (main_caller a)) = 4 := rfl
      change load (Function.update c.job (main_caller a) _) manager < _
      omega
  | @failed task m hjob hcloses _ _ =>
      change c.job (main_caller a) = _ at hjob
      have hentered := load_entered hs hcloses hwake hjob
      have hmoved := hupdate .idle
      rw [hjob] at hmoved
      have hidle : work ((.idle : Job X), manager.phase (main_caller a)) = 0 := rfl
      change load (Function.update c.job (main_caller a) _) manager < _
      omega
  | @waits task m hjob hcloses hheld hout =>
      change c.job (main_caller a) = _ at hjob
      have hentered := load_entered hs hcloses hwake hjob
      rw [parked_of_entered hs hcloses hwake hheld] at hentered
      have hparked : work ((.opening task m : Job X), .waiting .parked) = 4 := rfl
      change load c.job manager < _
      omega
  | @closed s hjob hcloses =>
      change c.job (main_caller a) = _ at hjob
      have hclosed := load_closed hs hcloses hjob
      have hmoved := hupdate .idle
      rw [hjob] at hmoved
      have hclosing : work ((.closing s : Job X), manager.phase (main_caller a)) = 2 := rfl
      have hidle : work ((.idle : Job X), manager.phase (main_caller a)) = 0 := rfl
      change load (Function.update c.job (main_caller a) (if decide (manager.phase (main_caller a) = .out) then _
        else _)) manager < _
      rw [phase_closed hs hcloses, decide_eq_true rfl, if_pos rfl]
      omega
  | left hjob _ =>
      have hleaving := h (main_caller a)
      change c.job (main_caller a) = _ at hjob
      rw [hjob] at hleaving
      exact hleaving.elim

theorem load_lt (c : Config (state_manager_main T state) X) (a : Act (state_manager_main T state) X)
    (c' : Config (state_manager_main T state) X) (ha : Settles c a ∧ Stands c) (hs : step I c a = some c') :
    load c'.job c'.manager < load c.job c.manager := by
  obtain ⟨hsettles, hstands⟩ := ha
  cases step_trans hs with
  | call _ => exact hsettles.elim
  | @manage a manager _ hmanager hmanaged =>
      have hwake : ∀ t, a ≠ Main.Act.wake t := by
        rintro t rfl
        exact hsettles
      exact load_managed hstands hwake hmanager hmanaged
  | @start t s task m l stack w hjob _ _ =>
      have hmoved := load_update c.job c.manager t (.running s ⟨stack, w.heap⟩ w.trace)
      rw [hjob] at hmoved
      have hready : work ((.ready s task m : Job X), c.manager.phase t) = 4 := rfl
      have hrunning : work ((.running s ⟨stack, w.heap⟩ w.trace : Job X), c.manager.phase t) = 3 := rfl
      change load (Function.update c.job t _) c.manager < _
      omega
  | @finish t s after events hjob =>
      have hmoved := load_update c.job c.manager t (.closing s)
      rw [hjob] at hmoved
      have hrunning : work ((.running s after events : Job X), c.manager.phase t) = 3 := rfl
      have hclosing : work ((.closing s : Job X), c.manager.phase t) = 2 := rfl
      change load (Function.update c.job t _) c.manager < _
      omega
  | script _ => exact hsettles.elim

/-! ## Where nothing goes on -/

/-- An error escapes from a callback that starts with what is there. -/
def Raises (I : Interp (Host X)) (task : Task) (m : Memory) (l : LuaState X) : Prop :=
  ∃ e w, ((task.program I).run l.stack).exec ⟨l.heap, m, []⟩ = (.error e, w)

omit [Fintype T] in
/-- A thread that has a state can go on, unless an error escapes from its callback. -/
theorem SessionInv.ready_stuck {M : StateManager T} {roots : Nat → Value} {c : Config M X} (hinv : SessionInv roots c)
    {t : T} {s : Nat} {task : Task} {m : Memory} (hjob : c.job t = .ready s task m)
    (hstart : step I c (.start t) = none) : ∃ l, c.lua s = some l ∧ Raises I task m l := by
  simp only [step, hjob, Config.started] at hstart
  split at hstart
  · rename_i hlua
    obtain ⟨u, l, events, hu⟩ := hinv.busy s hlua
    have hut := hinv.exclusive (t := t) (u := u) (s := s) (by rw [hjob]; rfl) (by rw [hu]; rfl)
    rw [hut, hu] at hjob
    cases hjob
  · rename_i l hlua
    split at hstart
    · cases hstart
    · rename_i e w hexec
      exact ⟨l, hlua, e, w, hexec⟩

theorem stuck_manage {c : Config (state_manager_main T state) X} (h : ∀ a, Settles c a → step I c a = none)
    {a : Main.Act T} (hwake : ∀ t, a ≠ .wake t) {manager : Main.Config T}
    (hs : Main.step c.manager a = some manager) : c.managed a manager = none := by
  have hsettles : Settles c (.manage a) := by
    cases a with
    | wake t => exact absurd rfl (hwake t)
    | _ => trivial
  have hnone : (Main.step c.manager a).bind (c.managed a) = none := h (.manage a) hsettles
  rwa [hs] at hnone

theorem stuck_job {roots : Nat → Value} {c : Config (state_manager_main T state) X} (hinv : SessionInv roots c)
    (hstands : Stands c) (h : ∀ a, Settles c a → step I c a = none) (t : T) :
    c.job t = .idle ∨ (∃ task m, c.job t = .opening task m ∧ c.manager.phase t = .waiting .parked) ∨
      ∃ s task m l, c.job t = .ready s task m ∧ c.lua s = some l ∧ Raises I task m l := by
  have hstand := hstands t
  cases hjob : c.job t with
  | idle => exact Or.inl rfl
  | «opening» task m =>
      apply Or.inr
      apply Or.inl
      refine ⟨task, m, rfl, ?_⟩
      rw [hjob] at hstand
      have henter : ∀ a : Main.Act T, main_caller a = t → main_closes a = false → (∀ t, a ≠ .wake t) →
          Main.step c.manager a ≠ some (c.manager.enter t) := by
        rintro a rfl hcloses hwake hs
        exact managed_of_opening hjob hcloses (stuck_manage h hwake hs)
      rcases hstand with hout | ⟨w, hw⟩
      · exact absurd (by simp [Main.step, hout]) (henter (.open t) rfl rfl (by simp))
      · cases w with
        | parked => exact hw
        | _ => exact absurd (by simp [Main.step, hw]) (henter (.resume t) rfl rfl (by simp))
  | ready s task m =>
      obtain ⟨l, hlua, hraises⟩ := hinv.ready_stuck hjob (h (.start t) trivial)
      exact Or.inr (Or.inr ⟨s, task, m, l, rfl, hlua, hraises⟩)
  | running s after events => simpa [step, hjob] using h (.finish t) trivial
  | closing s =>
      rw [hjob] at hstand
      have hheld : c.manager.phase t = .holding s := hstand
      have hclose : ∀ signalled : Option T, Main.step c.manager (.close t signalled) = none := by
        intro signalled
        by_contra hne
        obtain ⟨manager, hs⟩ := Option.ne_none_iff_exists'.mp hne
        exact managed_of_closing hjob rfl (stuck_manage h (by simp) hs)
      by_cases hparked : ∃ u, c.manager.phase u = .waiting .parked
      · obtain ⟨u, hu⟩ := hparked
        simpa [Main.step, hheld, hu] using hclose (some u)
      · simpa [Main.step, hheld, not_exists.mp hparked] using hclose none
  | leaving =>
      rw [hjob] at hstand
      exact hstand.elim

theorem sessions_stuck {roots : Nat → Value} {c : Config (state_manager_main T state) X} (hinv : SessionInv roots c)
    (hmain : Main.MainInv state c.manager) (hstands : Stands c) (h : ∀ a, Settles c a → step I c a = none) :
    (c.manager = Main.Config.init state ∧ ∀ t, c.job t = .idle) ∨
      ∃ t task m l, c.job t = .ready state task m ∧ c.lua state = some l ∧ Raises I task m l ∧
        ∀ u, u ≠ t → c.job u = .idle ∨ ∃ task m, c.job u = .opening task m ∧ c.manager.phase u = .waiting .parked := by
  have hjobs := stuck_job hinv hstands h
  obtain ⟨⟨owner, hstate, hphase⟩, hlost⟩ := hmain
  have hheld : ∀ t s task m, c.job t = .ready s task m → owner = some t ∧ s = state := by
    intro t s task m hjob
    have hstand := hstands t
    rw [hjob] at hstand
    exact (hphase t s).mp hstand
  by_cases hready : ∃ t s task m, c.job t = .ready s task m
  · apply Or.inr
    obtain ⟨t, s, task, m, hjob⟩ := hready
    obtain ⟨ht, rfl⟩ := hheld t s task m hjob
    rcases hjobs t with hidle | ⟨_, _, hopening, _⟩ | ⟨s', task', m', l, hjob', hlua, hraises⟩
    · rw [hjob] at hidle
      cases hidle
    · rw [hjob] at hopening
      cases hopening
    · rw [hjob] at hjob'
      cases hjob'
      refine ⟨t, task, m, l, hjob, hlua, hraises, fun u hu => ?_⟩
      rcases hjobs u with hidle | hopening | ⟨s', task', m', l', hjob', _, _⟩
      · exact Or.inl hidle
      · exact Or.inr hopening
      · obtain ⟨hu', -⟩ := hheld u s' task' m' hjob'
        rw [ht] at hu'
        exact absurd (Option.some.inj hu').symm hu
  · apply Or.inl
    have hphases : ∀ t, (c.job t = .idle ∧ c.manager.phase t = .out) ∨ c.manager.phase t = .waiting .parked := by
      intro t
      rcases hjobs t with hidle | ⟨_, _, _, hparked⟩ | ⟨s, task, m, _, hjob, _, _⟩
      · have hstand := hstands t
        rw [hidle] at hstand
        exact Or.inl ⟨hidle, hstand⟩
      · exact Or.inr hparked
      · exact absurd ⟨t, s, task, m, hjob⟩ hready
    have hnot : ∀ t ph, ph ≠ .out → ph ≠ .waiting .parked → c.manager.phase t ≠ ph := by
      rintro t _ hout hparked rfl
      rcases hphases t with ⟨-, ht⟩ | ht
      · exact hout ht
      · exact hparked ht
    obtain rfl : owner = none := by
      cases owner with
      | none => rfl
      | some t => exact absurd ((hphase t state).mpr ⟨rfl, rfl⟩) (hnot t _ (by simp) (by simp))
    have hback : c.manager.state_ = some state := hstate
    have hout : ∀ t, c.job t = .idle ∧ c.manager.phase t = .out := by
      intro t
      rcases hphases t with hidle | hparked
      · exact hidle
      · obtain ⟨u, hu⟩ := Main.noLostWakeup_iff.mp hlost ⟨t, hparked⟩ (by simp [hback])
        exact absurd hu (hnot u _ (by simp) (by simp))
    have hinit : Main.Config.mk c.manager.state_ c.manager.phase = .init state := by
      rw [hback, funext fun t => (hout t).2]
      rfl
    exact ⟨hinit, fun t => (hout t).1⟩

theorem settled_length {c c' : Config (state_manager_main T state) X}
    {tr : List (Config (state_manager_main T state) X × Act (state_manager_main T state) X)} (hstands : Stands c)
    (hrun : Run (step I) c tr c') (hsettles : EveryStep Settles tr) : tr.length ≤ Fintype.card T * 5 := by
  have hstep : EveryStep (fun c a => Settles c a ∧ Stands c) tr :=
    fun p hp => ⟨hsettles p hp, (hrun.always hstands stands_step).1 p hp⟩
  have hlength : tr.length + load c'.job c'.manager ≤ load c.job c.manager :=
    hrun.length_le load_lt hstep
  have hload : load c.job c.manager ≤ Fintype.card T * 5 := by
    apply tally_le
    rintro ⟨job, ph⟩
    fun_cases Session.work (job, ph) <;> decide
  omega

/-- From wherever the threads of a session stand, once no new callback is called, no script runs besides the callbacks
and nobody wakes up spuriously, every callback comes through: the steps that are left are at most five for each thread,
and where there is none left every thread is idle and the state is back, unless an error escapes from the callback that
has it. -/
theorem sessions_drain {roots : Nat → Value} {heaps : Nat → Heap (Host X)}
    {c c' : Config (state_manager_main T state) X}
    (h : Reachable (step I) (Config.init (state_manager_main T state) roots heaps) c)
    {tr : List (Config (state_manager_main T state) X × Act (state_manager_main T state) X)}
    (hrun : Run (step I) c tr c') (hsettles : EveryStep Settles tr) :
    tr.length ≤ Fintype.card T * 5 ∧
      ((∀ a, Settles c' a → step I c' a = none) →
        (c'.manager = Main.Config.init state ∧ ∀ t, c'.job t = .idle) ∨
          ∃ t task m l, c'.job t = .ready state task m ∧ c'.lua state = some l ∧ Raises I task m l ∧
            ∀ u, u ≠ t → c'.job u = .idle ∨
              ∃ task m, c'.job u = .opening task m ∧ c'.manager.phase u = .waiting .parked) := by
  have hreachable := h.trans ⟨tr, hrun⟩
  constructor
  · exact settled_length (h.invariant (fun _ => rfl) stands_step) hrun hsettles
  · exact sessions_stuck (hreachable.invariant (sessionInv_init roots heaps) (sessionInv_step I))
      (Main.mainInv_reachable (manager_reachable hreachable)) (hreachable.invariant (fun _ => rfl) stands_step)

/-- Two threads run `destroy`, and the second one waits for the state. Both come through in seven steps. -/
theorem sessions_drain_destroy : ∃ tr, ∃ c c' : Config (state_manager_main (Fin 2) 0) Unit,
    Reachable (step (.constant (.ok .nil)))
      (Config.init (state_manager_main (Fin 2) 0) (fun _ => .table 0) fun _ => destroyable) c ∧
    c.manager.phase 1 = .waiting .parked ∧ Run (step (.constant (.ok .nil))) c tr c' ∧ tr.length = 7 ∧
    tr.length ≤ 2 * 5 := by
  obtain ⟨⟨tr₀, c⟩, hcalls, hparked, hrest⟩ : ∃ r, exec (step (.constant (.ok .nil)))
      (Config.init (state_manager_main (Fin 2) 0) (fun _ => .table 0) fun _ => destroyable)
      [.call 0 (.callback .destroy) .zeroed, .call 1 (.callback .destroy) .zeroed, .manage (Main.Act.open 0),
        .manage (Main.Act.open 1)] = some r ∧ r.2.manager.phase 1 = .waiting .parked ∧
      (exec (step (.constant (.ok .nil))) r.2 [.start 0, .finish 0, .manage (Main.Act.close 0 (some 1)),
        .manage (Main.Act.resume 1), .start 1, .finish 1, .manage (Main.Act.close 1 none)]).isSome :=
    ⟨_, rfl, by decide +kernel, by decide +kernel⟩
  obtain ⟨⟨tr, c'⟩, hexec⟩ := Option.isSome_iff_exists.mp hrest
  have hlabels := exec_labels _ hexec
  have hreachable : Reachable (step (.constant (.ok .nil)))
      (Config.init (state_manager_main (Fin 2) 0) (fun _ => .table 0) fun _ => destroyable) c :=
    ⟨tr₀, run_of_exec _ hcalls⟩
  have hrun := run_of_exec _ hexec
  have hsettles : EveryStep Settles tr := by
    intro p hp
    have hlabel : p.2 ∈ tr.map Prod.snd := List.mem_map_of_mem hp
    rw [hlabels] at hlabel
    simp only [List.mem_cons, List.not_mem_nil, or_false] at hlabel
    rcases hlabel with hlabel | hlabel | hlabel | hlabel | hlabel | hlabel | hlabel <;> (rw [hlabel]; trivial)
  refine ⟨tr, c, c', hreachable, hparked, hrun, ?_, (sessions_drain hreachable hrun hsettles).1⟩
  rw [← List.length_map, hlabels]
  rfl

end DromozoaFuse.Session
