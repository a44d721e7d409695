import DromozoaFuse.Session.Interleaved
import DromozoaFuse.Session.Lemmas.Kept
import DromozoaFuse.Session.Lemmas.Steps

/-!
# One step of interleaved callbacks

While a callback runs, what is left of it comes to what the whole of it would have come to on the state as it was when
the callback started: nobody else has got the state, so nobody else runs on it.
-/

namespace DromozoaFuse.Session.Interleaved

open Base Lua Operations Fill Pieces

variable {T : Type} {M : StateManager T} {X : Type} {I : Interp (Host X)} {cut : Task → Cut X (Option Returned)}

/-! ## Callbacks that have started -/

def Config.Inside (c : Config M X) (t : T) (s : Nat) (task : Task) (m : Memory) (b : Started X) : Prop :=
  c.job t = .ready s task m ∧ c.started t = some b

theorem Config.on_eq {c : Config M X} {t : T} {s : Nat} : c.on t = some s ↔ ∃ task m b, c.Inside t s task m b := by
  unfold on Inside
  split
  · rename_i s' task m b hjob hstarted
    simp only [hjob, hstarted, Option.some.injEq, Job.ready.injEq]
    exact ⟨fun hs => ⟨task, m, b, ⟨hs, rfl, rfl⟩, rfl⟩, fun ⟨_, _, _, ⟨hs, _⟩, _⟩ => hs⟩
  · rename_i hnot
    simp only [reduceCtorEq, false_iff, not_exists, not_and]
    exact fun task m b hjob hstarted => hnot s task m b hjob hstarted

/-- State `s` stems from `l`: it still is `l`, or one callback has started on it, and what is left of this one comes to
what the whole of it comes to on `l`. -/
structure Config.Stems (cut : Task → Cut X (Option Returned)) (c : Config M X) (s : Nat) (l : LuaState X) : Prop where
  still : (∀ t, c.on t ≠ some s) → c.lua s = l
  alone : ∀ t u, c.on t = some s → c.on u = some s → t = u
  underway : ∀ t task m b, c.Inside t s task m b →
    b.rest.exec (c.found s b) = (cut task).exec (l.stack, ⟨l.heap, m, []⟩) ∧
      b.filled = l.heap.host.filled.length

/-- A step that leaves a state alone, and the callback that has started on it. -/
theorem Config.Stems.frame {c c' : Config M X} {s : Nat} {l : LuaState X} (h : c.Stems cut s l)
    (hlua : c'.lua s = c.lua s) (hinside : ∀ t task m b, c'.Inside t s task m b ↔ c.Inside t s task m b) :
    c'.Stems cut s l := by
  have hon : ∀ t, c'.on t = some s ↔ c.on t = some s := by
    intro t
    simp only [Config.on_eq, hinside]
  refine ⟨fun hnot => ?_, fun t u ht hu => ?_, fun t task m b hb => ?_⟩
  · rw [hlua]
    exact h.still fun t ht => hnot t ((hon t).mpr ht)
  · exact h.alone t u ((hon t).mp ht) ((hon u).mp hu)
  · rw [Config.found, hlua]
    exact h.underway t task m b ((hinside t task m b).mp hb)

/-- A step of a thread that has a state, if any, leaves the other states alone. -/
theorem Config.Stems.other {c c' : Config M X} {s : Nat} {l : LuaState X} (h : c.Stems cut s l) {t : T}
    (hlua : c'.lua s = c.lua s) (hothers : ∀ u, u ≠ t → c'.job u = c.job u ∧ c'.started u = c.started u)
    (hjob : ∀ task m, c.job t ≠ .ready s task m) (hjob' : ∀ task m, c'.job t ≠ .ready s task m) :
    c'.Stems cut s l := by
  apply h.frame hlua
  intro u task m b
  by_cases hu : u = t
  · subst hu
    exact iff_of_false (fun hb => hjob' task m hb.1) fun hb => hjob task m hb.1
  · rw [Config.Inside, (hothers u hu).1, (hothers u hu).2]
    rfl

/-! ## The session behind it -/

/-- Callbacks that run at once when they end make the same of the states, as long as they get `lua` to run on. -/
structure Refined (cut : Task → Cut X (Option Returned)) (roots : Nat → Value) (c : Config M X)
    (lua : Nat → LuaState X) : Prop where
  session : SessionInv roots (c.session lua)
  started : ∀ t b, c.started t = some b → ∃ s task m, c.job t = .ready s task m
  stems : ∀ s, c.Stems cut s (lua s)

variable {roots : Nat → Value} {c c' : Config M X} {lua : Nat → LuaState X}

theorem refined_init (roots : Nat → Value) (heaps : Nat → Heap (Host X)) :
    Refined cut roots (Config.init M roots heaps) fun s => ⟨[roots s], heaps s⟩ where
  session := sessionInv_init roots heaps
  started _ _ h := by cases h
  stems _ := by
    refine ⟨fun _ => rfl, fun t u ht => ?_, fun t task m b hb => ?_⟩
    · cases ht
    · cases hb.2

/-- The manager gives a state to one thread only. -/
theorem alone (h : SessionInv roots (c.session lua)) {t u : T} {s : Nat} {task task' : Task} {m m' : Memory}
    (ht : c.job t = .ready s task m) (hu : c.job u = .ready s task' m') : t = u := by
  apply h.exclusive (s := s)
  · exact congrArg Job.state? ht
  · exact congrArg Job.state? hu

/-- Where nobody else has got the state, what matters is the thread that has. -/
theorem stems_of_ready (h : SessionInv roots (c.session lua)) {t : T} {s : Nat} {task : Task} {m : Memory}
    {b : Started X} (hb : c.Inside t s task m b) {l : LuaState X}
    (hrest : b.rest.exec (c.found s b) = (cut task).exec (l.stack, ⟨l.heap, m, []⟩))
    (hfilled : b.filled = l.heap.host.filled.length) : c.Stems cut s l := by
  refine ⟨fun hnot => ?_, fun u v hu hv => ?_, fun u task' m' b' hb' => ?_⟩
  · exact absurd (Config.on_eq.mpr ⟨task, m, b, hb⟩) (hnot t)
  · obtain ⟨_, _, _, hu⟩ := Config.on_eq.mp hu
    obtain ⟨_, _, _, hv⟩ := Config.on_eq.mp hv
    exact alone h hu.1 hv.1
  · obtain rfl := alone h hb'.1 hb.1
    obtain ⟨hjob, hstarted⟩ := hb'
    cases hjob.symm.trans hb.1
    cases hstarted.symm.trans hb.2
    exact ⟨hrest, hfilled⟩

theorem Config.setLua_lua (c : Config M X) (s s' : Nat) (l : LuaState X) :
    (c.setLua s l).lua s' = if s' = s then l else c.lua s' := by
  simp [setLua, Function.update_apply]

/-- No callback has started on a state that is handed out. -/
theorem Refined.handed_out (h : Refined cut roots c lua) {a : M.Act} {manager : M.Config}
    (hs : M.step c.manager a = some manager) {s : Nat} (hheld : M.held manager (M.caller a) = some s)
    (hjob : ∀ s task m, c.job (M.caller a) ≠ .ready s task m) : c.lua s = lua s := by
  apply (h.stems s).still
  intro u hu
  obtain ⟨task, m, b, hujob, -⟩ := Config.on_eq.mp hu
  have hne : u ≠ M.caller a := by
    rintro rfl
    exact hjob s task m hujob
  have hheld' : M.held c.manager u = some s := (h.session.held u).trans (congrArg Job.state? hujob)
  have hframe : M.held manager u = M.held c.manager u := M.frame hs hne
  exact hne (M.exclusive (M.inv_step h.session.manager hs) (hframe.trans hheld') hheld)

theorem Config.session_setLua (c : Config M X) (lua : Nat → LuaState X) (s : Nat) (l : LuaState X) :
    (c.session lua).setLua s (some l) = c.session (Function.update lua s l) := by
  have hlua : Function.update (fun s => some (lua s)) s (some l) = fun s' => some (Function.update lua s l s') :=
    (Function.comp_update some lua s l).symm
  rw [Session.Config.setLua, session, hlua]
  rfl

/-- What a callback makes of its state when it ends is what all of it makes of the state at once. -/
theorem Refined.ran (hcut : ∀ task, Cuts (cut task) (task.returning I)) (h : Refined cut roots c lua) {t : T} {s : Nat}
    {task : Task} {m : Memory} {b : Started X} (hb : c.Inside t s task m b) {returned : Option Returned}
    (hrest : b.rest = .done (.ok returned)) :
    ((task.returning I).run (lua s).stack).exec ⟨(lua s).heap, m, []⟩ =
      (.ok (returned, (c.lua s).stack), ⟨(c.lua s).heap, b.mem, b.events⟩) := by
  apply (hcut task).ok
  rw [← ((h.stems s).underway t task m b hb).1, hrest]
  rfl

variable [DecidableEq T]

theorem Config.setStarted_started (c : Config M X) (t u : T) (b : Option (Started X)) :
    (c.setStarted t b).started u = if u = t then b else c.started u := by
  simp [setStarted, Function.update_apply]

/-- Only the thread that has a state runs on it. -/
theorem Refined.runs (h : Refined cut roots c lua) {t : T} {s : Nat} {task : Task} {m : Memory}
    (hjob : c.job t = .ready s task m) {l : LuaState X} {b : Started X}
    (hrest : b.rest.exec (l.stack, ⟨l.heap, b.mem, b.events⟩) =
      (cut task).exec ((lua s).stack, ⟨(lua s).heap, m, []⟩))
    (hfilled : b.filled = (lua s).heap.host.filled.length) :
    Refined cut roots ((c.setLua s l).setStarted t (some b)) lua := by
  have hsession : SessionInv roots (((c.setLua s l).setStarted t (some b)).session lua) := h.session
  refine ⟨hsession, fun u b' hb' => ?_, fun s' => ?_⟩
  · rw [Config.setStarted_started] at hb'
    split at hb'
    · rename_i hu
      rw [hu]
      exact ⟨s, task, m, hjob⟩
    · exact h.started u b' hb'
  · by_cases hs : s' = s
    · subst hs
      have hinside : ((c.setLua s' l).setStarted t (some b)).Inside t s' task m b :=
        ⟨hjob, by rw [Config.setStarted_started, if_pos rfl]⟩
      have hlua : ((c.setLua s' l).setStarted t (some b)).lua s' = l := by
        change (c.setLua s' l).lua s' = l
        rw [Config.setLua_lua, if_pos rfl]
      apply stems_of_ready hsession hinside
      · rw [Config.found, hlua]
        exact hrest
      · exact hfilled
    · have hother : ∀ task m, c.job t ≠ .ready s' task m := by simp [hjob, Ne.symm hs]
      have hlua : (c.setLua s l).lua s' = c.lua s' := by rw [Config.setLua_lua, if_neg hs]
      exact (h.stems s').other (t := t) hlua (fun u hu => ⟨rfl, by rw [Config.setStarted_started, if_neg hu]; rfl⟩)
        hother hother

theorem Refined.start (h : Refined cut roots c lua) {t : T} {s : Nat} {task : Task} {m : Memory}
    (hjob : c.job t = .ready s task m) (hstarted : c.started t = none) :
    Refined cut roots (c.setStarted t (some ⟨cut task, m, [], (c.lua s).heap.host.filled.length⟩)) lua := by
  have hfree : ∀ u, c.on u ≠ some s := by
    intro u hu
    obtain ⟨_, _, b, hujob, hb⟩ := Config.on_eq.mp hu
    obtain rfl := alone h.session hujob hjob
    rw [hstarted] at hb
    cases hb
  have hlua : c.lua s = lua s := (h.stems s).still hfree
  have hsame : c.setLua s (lua s) = c := by rw [Config.setLua, ← hlua, Function.update_eq_self]
  rw [hlua, ← hsame]
  exact h.runs hjob rfl rfl

theorem Refined.advance (h : Refined cut roots c lua) {t : T} {s : Nat} {task : Task} {m : Memory} {b : Started X}
    (hb : c.Inside t s task m b) {run : List Value × World (Host X) Memory → List Value × World (Host X) Memory}
    {rest : List Value × World (Host X) Memory → Cut X (Option Returned)} (hrest : b.rest = .piece run rest) :
    Refined cut roots (c.advanced t s b (rest (c.found s b)) (run (c.found s b))) lua := by
  obtain ⟨hexec, hfilled⟩ := (h.stems s).underway t task m b hb
  apply h.runs hb.1
  · rw [← hexec, hrest]
    rfl
  · exact hfilled

/-- A step of the manager depends on the states of Lua only for what it hands out. -/
theorem managed_lua {c : Session.Config M X} {a : M.Act} {manager : M.Config} {d : Session.Config M X}
    (h : c.managed a manager = some d) {lua : Nat → Option (LuaState X)}
    (hstack : ∀ s, M.held manager (M.caller a) = some s →
      (lua s).map LuaState.stack = (c.lua s).map LuaState.stack) :
    Session.Config.managed { c with lua } a manager = some { d with lua } := by
  unfold Session.Config.managed at h ⊢
  dsimp only at h ⊢
  split at h
  · rename_i hjob hcloses
    split at h
    · rename_i s hheld
      cases h
      rw [hstack s hheld]
      rfl
    · split at h
      · rename_i hout
        cases h
        rw [if_pos hout]
        rfl
      · rename_i hout
        cases h
        rw [if_neg hout]
  · cases h
    rfl
  · cases h
    rfl
  · cases h

theorem Refined.manage (h : Refined cut roots c lua) {a : M.Act} {manager : M.Config} {d : Session.Config M X}
    (hs : M.step c.manager a = some manager) (hd : (c.session c.lua).managed a manager = some d) :
    Session.step I (c.session lua) (.manage a) = some ((c.follow d).session lua) ∧
      Refined cut roots (c.follow d) lua := by
  have hmanaged := managed_cases hd
  have hready : ∀ s task m, c.job (M.caller a) ≠ .ready s task m := by
    intro s task m hjob
    cases hmanaged with
    | opened hjob' _ _ | failed hjob' _ _ _ | waits hjob' _ _ _ | closed hjob' _ | left hjob' _ =>
        cases hjob.symm.trans hjob'
  have hstep : Session.step I (c.session lua) (.manage a) = some ((c.follow d).session lua) := by
    have hlua : (c.session lua).managed a manager = some ((c.follow d).session lua) := by
      apply managed_lua hd
      intro s hheld
      rw [← h.handed_out hs hheld hready]
      rfl
    change (M.step c.manager a).bind _ = _
    rw [hs]
    exact hlua
  refine ⟨hstep, sessionInv_step I _ _ _ h.session hstep, fun t b hb => ?_, fun s => ?_⟩
  · obtain ⟨s, task, m, hjob⟩ := h.started t b hb
    have ht : t ≠ M.caller a := by
      rintro rfl
      exact hready s task m hjob
    exact ⟨s, task, m, (hmanaged.others ht).trans hjob⟩
  · have hlua : (c.follow d).lua s = c.lua s := rfl
    apply (h.stems s).frame hlua
    intro t task m b
    by_cases ht : t = M.caller a
    · subst ht
      refine iff_of_false (fun hb => ?_) fun hb => hready s task m hb.1
      obtain ⟨s', task', m', hjob⟩ := h.started _ _ hb.2
      exact hready s' task' m' hjob
    · have hjob : (c.follow d).job t = c.job t := hmanaged.others ht
      rw [Config.Inside, hjob]
      rfl

theorem Refined.call (h : Refined cut roots c lua) {t : T} (task : Task) (m : Memory) (hjob : c.job t = .idle) :
    Session.step I (c.session lua) (.call t task m) =
        some ((c.follow ((c.session c.lua).move t (.opening task m) [.called task])).session lua) ∧
      Refined cut roots (c.follow ((c.session c.lua).move t (.opening task m) [.called task])) lua := by
  have hstep : Session.step I (c.session lua) (.call t task m) =
      some ((c.follow ((c.session c.lua).move t (.opening task m) [.called task])).session lua) :=
    step_call task m hjob
  have hothers : ∀ u, u ≠ t → (c.follow ((c.session c.lua).move t (.opening task m) [.called task])).job u = c.job u :=
    fun u hu => Function.update_of_ne hu ..
  refine ⟨hstep, sessionInv_step I _ _ _ h.session hstep, fun u b hb => ?_, fun s => ?_⟩
  · obtain ⟨s, task', m', hujob⟩ := h.started u b hb
    have hu : u ≠ t := by
      rintro rfl
      cases hujob.symm.trans hjob
    exact ⟨s, task', m', (hothers u hu).trans hujob⟩
  · have hlua : (c.follow ((c.session c.lua).move t (.opening task m) [.called task])).lua s = c.lua s := rfl
    have hopening : (c.follow ((c.session c.lua).move t (.opening task m) [.called task])).job t = .opening task m :=
      Function.update_self ..
    exact (h.stems s).other hlua (fun u hu => ⟨hothers u hu, rfl⟩) (by simp [hjob]) (by simp [hopening])

theorem Refined.script (h : Refined cut roots c lua) {s : Nat} (heap : Heap (Host X)) (hnot : ∀ t, c.on t ≠ some s) :
    Session.step I (c.session lua) (.script s heap) =
        some ((c.setLua s { c.lua s with heap }).session (Function.update lua s { lua s with heap })) ∧
      Refined cut roots (c.setLua s { c.lua s with heap }) (Function.update lua s { lua s with heap }) := by
  have hstill : c.lua s = lua s := (h.stems s).still hnot
  have hstep : Session.step I (c.session lua) (.script s heap) =
      some ((c.setLua s { c.lua s with heap }).session (Function.update lua s { lua s with heap })) := by
    change some ((c.session lua).setLua s (some { lua s with heap })) = _
    rw [Config.session_setLua]
    rfl
  refine ⟨hstep, sessionInv_step I _ _ _ h.session hstep, h.started, fun s' => ?_⟩
  by_cases hs : s' = s
  · subst hs
    refine ⟨fun _ => ?_, fun t u ht => absurd ht (hnot t), fun t task m b hb => ?_⟩
    · rw [Config.setLua_lua, if_pos rfl, Function.update_self, hstill]
    · exact absurd (Config.on_eq.mpr ⟨task, m, b, hb⟩) (hnot t)
  · rw [Function.update_of_ne hs]
    apply (h.stems s').frame
    · rw [Config.setLua_lua, if_neg hs]
    · exact fun _ _ _ _ => Iff.rfl

theorem move_move (c : Session.Config M X) (t : T) (job job' : Job X) (notes : List Note) :
    (c.move t job []).move t job' notes = c.move t job' notes := by
  simp only [Session.Config.move, Function.update_idem, Function.update_self, List.append_nil]

/-- The session behind it runs the whole callback now. -/
theorem Refined.finish (hcut : ∀ task, Cuts (cut task) (task.returning I)) (h : Refined cut roots c lua) {t : T}
    {s : Nat} {task : Task} {m : Memory} {b : Started X} (hb : c.Inside t s task m b) {returned : Option Returned}
    (hrest : b.rest = .done (.ok returned)) :
    ∃ d, Session.step I (c.session lua) (.start t) = some d ∧
      Session.step I d (.finish t) = some (((c.setStarted t none).follow
        ((c.session c.lua).move t (.closing s) [.ran b.events])).session (Function.update lua s (c.lua s))) ∧
      Refined cut roots ((c.setStarted t none).follow ((c.session c.lua).move t (.closing s) [.ran b.events]))
        (Function.update lua s (c.lua s)) := by
  have hexec := Task.program_of_returning (h.ran hcut hb hrest)
  have hstart : Session.step I (c.session lua) (.start t) =
      some (((c.session lua).setLua s none).move t (.running s (c.lua s) b.events) []) := step_start hb.1 rfl hexec
  generalize hd : ((c.session lua).setLua s none).move t (.running s (c.lua s) b.events) [] = d at hstart
  generalize hc' : (c.setStarted t none).follow ((c.session c.lua).move t (.closing s) [.ran b.events]) = c'
  have hjob : d.job t = .running s (c.lua s) b.events := by
    rw [← hd]
    exact Function.update_self ..
  have hfinish : Session.step I d (.finish t) = some (c'.session (Function.update lua s (c.lua s))) := by
    have hback : (((c.session lua).setLua s none).move t (.running s (c.lua s) b.events) []).setLua s
        (some (c.lua s)) = (c.session (Function.update lua s (c.lua s))).move t (.running s (c.lua s) b.events) [] := by
      rw [← Config.session_setLua]
      simp only [Session.Config.setLua, Session.Config.move, Function.update_idem]
    rw [step_finish hjob, ← hd, hback, ← hc', move_move]
    rfl
  have hothers : ∀ u, u ≠ t → c'.job u = c.job u ∧ c'.started u = c.started u := by
    intro u hu
    rw [← hc']
    exact ⟨Function.update_of_ne hu .., Function.update_of_ne hu ..⟩
  have hclosing : c'.job t = .closing s := by
    rw [← hc']
    exact Function.update_self ..
  have hended : c'.started t = none := by
    rw [← hc']
    exact Function.update_self ..
  have hlua : c'.lua = c.lua := by rw [← hc']; rfl
  refine ⟨d, hstart, hfinish, sessionInv_step I _ _ _ (sessionInv_step I _ _ _ h.session hstart) hfinish, ?_, ?_⟩
  · intro u b' hb'
    have hu : u ≠ t := by
      rintro rfl
      rw [hended] at hb'
      cases hb'
    rw [(hothers u hu).2] at hb'
    obtain ⟨s', task', m', hujob⟩ := h.started u b' hb'
    exact ⟨s', task', m', (hothers u hu).1.trans hujob⟩
  · intro s'
    by_cases hs : s' = s
    · subst hs
      have hnot : ∀ u, c'.on u ≠ some s' := by
        intro u hu
        obtain ⟨task', m', b', hujob, hub⟩ := Config.on_eq.mp hu
        by_cases hut : u = t
        · rw [hut, hclosing] at hujob
          cases hujob
        · rw [(hothers u hut).1] at hujob
          exact hut (alone h.session hujob hb.1)
      refine ⟨fun _ => ?_, fun u v hu => absurd hu (hnot u), fun u task' m' b' hb' => ?_⟩
      · rw [hlua, Function.update_self]
      · exact absurd (Config.on_eq.mpr ⟨task', m', b', hb'⟩) (hnot u)
    · rw [Function.update_of_ne hs]
      refine (h.stems s').other (t := t) (by rw [hlua]) hothers ?_ (by simp [hclosing])
      simp [hb.1, Ne.symm hs]

/-! ## What a step can do -/

variable [Fintype T]

inductive Trans (cut : Task → Cut X (Option Returned)) (c : Config M X) : Act M X → Config M X → Prop
  | call {t task m} : c.job t = .idle →
      Trans cut c (.call t task m) (c.follow ((c.session c.lua).move t (.opening task m) [.called task]))
  | manage {a manager d} : M.step c.manager a = some manager → (c.session c.lua).managed a manager = some d →
      Trans cut c (.manage a) (c.follow d)
  | start {t s task m} : c.job t = .ready s task m → c.started t = none →
      Trans cut c (.start t) (c.setStarted t (some ⟨cut task, m, [], (c.lua s).heap.host.filled.length⟩))
  | advance {t s task m b run rest} : c.Inside t s task m b → b.rest = .piece run rest →
      Trans cut c (.advance t) (c.advanced t s b (rest (c.found s b)) (run (c.found s b)))
  | finish {t s task m b returned} : c.Inside t s task m b → b.rest = .done (.ok returned) →
      Trans cut c (.finish t) ((c.setStarted t none).follow ((c.session c.lua).move t (.closing s) [.ran b.events]))
  | script {s heap} : (∀ t, c.on t ≠ some s) → Trans cut c (.script s heap) (c.setLua s { c.lua s with heap })

theorem step_trans {c c' : Config M X} {a : Act M X} (h : step cut c a = some c') : Trans cut c a c' := by
  cases a with
  | call t task m =>
      simp only [step] at h
      split at h
      · rename_i hjob
        cases h
        exact .call hjob
      · cases h
  | manage a =>
      obtain ⟨manager, hmanager, hmanaged⟩ := Option.bind_eq_some_iff.mp h
      obtain ⟨d, hd, rfl⟩ := Option.map_eq_some_iff.mp hmanaged
      exact .manage hmanager hd
  | start t =>
      simp only [step] at h
      split at h
      · rename_i hjob hstarted
        cases h
        exact .start hjob hstarted
      · cases h
  | advance t =>
      simp only [step] at h
      split at h
      · rename_i hjob hstarted
        split at h
        · rename_i hrest
          cases h
          exact .advance ⟨hjob, hstarted⟩ hrest
        · cases h
      · cases h
  | finish t =>
      simp only [step] at h
      split at h
      · rename_i hjob hstarted
        split at h
        · rename_i hrest
          cases h
          exact .finish ⟨hjob, hstarted⟩ hrest
        · cases h
      · cases h
  | script s heap =>
      simp only [step] at h
      split at h
      · rename_i hnot
        cases h
        exact .script hnot
      · cases h

end DromozoaFuse.Session.Interleaved
