import DromozoaFuse.Operations.Lemmas.Discipline
import DromozoaFuse.Session.Session

/-!
# What a session keeps

A state that no callback runs on has nothing but its operations value on its stack. A callback keeps that
up on its own state, and the manager gives no state to two callers.
-/

namespace DromozoaFuse.Session

open Base Lua Operations Fill

variable {T : Type} {M : StateManager T} {X : Type}

inductive Stage
  | out
  | opening (task : Task)
  | inside (state : Nat) (task : Task)
  | closing (state : Nat)

def Job.state? : Job X → Option Nat
  | .ready s .. | .running s .. | .closing s => some s
  | _ => none

/-- The constructor of `operations` has looked up its names on its one state, and a callback is disciplined. -/
def Task.Disciplined (ops : Value) (events : List Event) : Task → Prop
  | .operations => ∃ answers,
      events = .opened [ops] :: considered.map (considered_event ops answers) ++ [.closed [ops]]
  | .callback inv => inv.callback.Disciplined ops events

/-- A thread has run one callback after the other, each one on a state with nothing but the operations
value on its stack, which it has given back once, and disciplined; or its `open()` threw. -/
inductive Kept (roots : Nat → Value) : List Note → Stage → Prop
  | nil : Kept roots [] .out
  | called {log task} : Kept roots log .out → Kept roots (log ++ [.called task]) (.opening task)
  | failed {log task} : Kept roots log (.opening task) → Kept roots (log ++ [.failed]) .out
  | opened {log task s} : Kept roots log (.opening task) →
      Kept roots (log ++ [.opened s (some [roots s])]) (.inside s task)
  | ran {log task s events} : Kept roots log (.inside s task) → task.Disciplined (roots s) events →
      Kept roots (log ++ [.ran events]) (.closing s)
  | closed {log s} : Kept roots log (.closing s) → Kept roots (log ++ [.closed s]) .out

/-- What a thread has done, where it stands. -/
def Job.Logged (roots : Nat → Value) (log : List Note) : Job X → Prop
  | .idle | .leaving => Kept roots log .out
  | .opening task _ => Kept roots log (.opening task)
  | .ready s task _ => Kept roots log (.inside s task)
  | .running s _ events => ∃ task, Kept roots log (.inside s task) ∧ task.Disciplined (roots s) events
  | .closing s => Kept roots log (.closing s)

theorem Job.Logged.kept {roots : Nat → Value} {log : List Note} {job : Job X} (h : job.Logged roots log) :
    ∃ stage, Kept roots log stage := by
  cases job with
  | running s l events =>
      obtain ⟨task, hkept, -⟩ := h
      exact ⟨_, hkept⟩
  | _ => exact ⟨_, h⟩

theorem Task.disciplined (I : Interp (Host X)) (task : Task) {root : Value} {heap : Heap (Host X)} {m : Memory}
    {r : Unit × List Value} {w : World (Host X) Memory}
    (h : ((task.program I).run [root]).exec ⟨heap, m, []⟩ = (.ok r, w)) :
    r.2 = [root] ∧ task.Disciplined root w.trace := by
  have hrec : recorded ⟨heap, m, []⟩ w = w.trace := rfl
  rw [← hrec]
  cases task with
  | operations =>
      obtain ⟨_, hrun, -⟩ := return_ok h
      exact operations_disciplined I root hrun
  | callback inv =>
      obtain ⟨_, hrun, -⟩ := return_ok h
      exact callback_disciplined I inv root hrun

structure SessionInv (roots : Nat → Value) (c : Config M X) : Prop where
  manager : M.Inv c.manager
  held : ∀ t, M.held c.manager t = (c.job t).state?
  free : ∀ s l, c.lua s = some l → l.stack = [roots s]
  busy : ∀ s, c.lua s = none → ∃ t l events, c.job t = .running s l events
  running : ∀ t s l events, c.job t = .running s l events →
    c.lua s = none ∧ l.stack = [roots s]
  log : ∀ t, (c.job t).Logged roots (c.log t)

theorem sessionInv_init (roots : Nat → Value) (heaps : Nat → Heap (Host X)) :
    SessionInv roots (Config.init M roots heaps) where
  manager := M.inv_init
  held := M.init_held
  free := by
    intro s l hl
    cases hl
    rfl
  busy := by
    intro s hs
    cases hs
  running := by
    intro t s l events h
    cases h
  log := fun _ => .nil

variable {roots : Nat → Value} {c : Config M X}

theorem Config.setLua_lua (c : Config M X) (s s' : Nat) (l : Option (LuaState X)) :
    (c.setLua s l).lua s' = if s' = s then l else c.lua s' := by
  simp [setLua, Function.update_apply]

theorem SessionInv.exclusive (h : SessionInv roots c) {t u : T} {s : Nat} (ht : (c.job t).state? = some s)
    (hu : (c.job u).state? = some s) : t = u :=
  M.exclusive h.manager ((h.held t).trans ht) ((h.held u).trans hu)

theorem SessionInv.handed_out (h : SessionInv roots c) {t : T} {s : Nat} {manager : M.Config}
    (hmanager : M.Inv manager) (hframe : ∀ u, u ≠ t → M.held manager u = M.held c.manager u)
    (hold : ∀ s l events, c.job t ≠ .running s l events) (hheld : M.held manager t = some s) :
    (c.lua s).map LuaState.stack = some [roots s] := by
  cases hlua : c.lua s with
  | some l => rw [Option.map_some, h.free s l hlua]
  | none =>
      obtain ⟨u, l, events, hu⟩ := h.busy s hlua
      have hut : u ≠ t := by
        rintro rfl
        exact hold _ _ _ hu
      have hheld' : M.held manager u = some s := by
        rw [hframe u hut, h.held u, hu]
        rfl
      exact absurd (M.exclusive hmanager hheld' hheld) hut

theorem SessionInv.scripted (h : SessionInv roots c) {s : Nat} {l : LuaState X} (hl : c.lua s = some l)
    (heap : Heap (Host X)) : SessionInv roots (c.setLua s (some { l with heap })) := by
  refine ⟨h.manager, h.held, fun s' l' hl' => ?_, fun s' hs' => ?_, fun t s' l' events ht => ?_, h.log⟩
  · rw [Config.setLua_lua] at hl'
    split at hl'
    · rename_i hss
      cases hl'
      rw [hss]
      exact h.free s l hl
    · exact h.free s' l' hl'
  · rw [Config.setLua_lua] at hs'
    split at hs'
    · cases hs'
    · exact h.busy s' hs'
  · obtain ⟨hlua, hrest⟩ := h.running t s' l' events ht
    refine ⟨?_, hrest⟩
    rw [Config.setLua_lua, if_neg, hlua]
    rintro rfl
    rw [hlua] at hl
    cases hl

variable [DecidableEq T]

theorem Config.move_job (c : Config M X) (t u : T) (job : Job X) (notes : List Note) :
    (c.move t job notes).job u = if u = t then job else c.job u := by
  simp [move, Function.update_apply]

theorem Config.move_log (c : Config M X) (t u : T) (job : Job X) (notes : List Note) :
    (c.move t job notes).log u = if u = t then c.log t ++ notes else c.log u := by
  simp [move, Function.update_apply]

theorem Config.move_held {manager : M.Config} {t : T} {job : Job X} (notes : List Note)
    (hheld : M.held manager t = job.state?) (hothers : ∀ u, u ≠ t → M.held manager u = (c.job u).state?) (u : T) :
    M.held manager u = ((c.move t job notes).job u).state? := by
  rw [move_job]
  split
  · rename_i hut
    rw [hut]
    exact hheld
  · rename_i hut
    exact hothers u hut

theorem Config.move_logged {t : T} {job : Job X} {notes : List Note}
    (h : ∀ u, (c.job u).Logged roots (c.log u)) (hlog : job.Logged roots (c.log t ++ notes)) (u : T) :
    ((c.move t job notes).job u).Logged roots ((c.move t job notes).log u) := by
  rw [move_job, move_log]
  split
  · exact hlog
  · exact h u

theorem SessionInv.move (h : SessionInv roots c) {t : T} {job : Job X} {notes : List Note}
    {manager : M.Config} (hmanager : M.Inv manager) (hframe : ∀ u, u ≠ t → M.held manager u = M.held c.manager u)
    (hheld : M.held manager t = job.state?) (hold : ∀ s l events, c.job t ≠ .running s l events)
    (hnew : ∀ s l events, job ≠ .running s l events) (hlog : job.Logged roots (c.log t ++ notes)) :
    SessionInv roots ({ c with manager }.move t job notes) := by
  refine ⟨hmanager, ?_, h.free, fun s hs => ?_, fun u s l events hu => ?_, Config.move_logged h.log hlog⟩
  · exact Config.move_held notes hheld fun u hut => (hframe u hut).trans (h.held u)
  · obtain ⟨u, l, events, hu⟩ := h.busy s hs
    refine ⟨u, l, events, ?_⟩
    rw [Config.move_job, if_neg]
    · exact hu
    · rintro rfl
      exact hold _ _ _ hu
  · rw [Config.move_job] at hu
    split at hu
    · exact absurd hu (hnew s l events)
    · exact h.running u s l events hu

theorem SessionInv.managed (h : SessionInv roots c) {a : M.Act} {manager : M.Config} {c' : Config M X}
    (hs : M.step c.manager a = some manager) (hc' : c.managed a manager = some c') : SessionInv roots c' := by
  have hmanager : M.Inv manager := M.inv_step h.manager hs
  have hframe : ∀ u, u ≠ M.caller a → M.held manager u = M.held c.manager u := fun u hu => M.frame hs hu
  have hlog := h.log (M.caller a)
  have hreturned : ∀ notes, M.closes a = true → (∀ s l events, c.job (M.caller a) ≠ .running s l events) →
      Kept roots (c.log (M.caller a) ++ notes) .out →
      SessionInv roots ({ c with manager }.move (M.caller a)
        (if M.out manager (M.caller a) then .idle else .leaving) notes) := by
    intro notes hcloses hold hlog
    have hnone := M.returned hs hcloses
    refine h.move hmanager hframe ?_ hold ?_ ?_
    · split <;> exact hnone
    · split <;> simp
    · split <;> exact hlog
  unfold Config.managed at hc'
  dsimp only at hc'
  split at hc'
  · rename_i task m hjob hcloses
    have hold : ∀ s l events, c.job (M.caller a) ≠ .running s l events := by simp [hjob]
    rw [hjob] at hlog
    split at hc'
    · rename_i s hheld
      cases hc'
      rw [h.handed_out hmanager hframe hold hheld]
      exact h.move hmanager hframe hheld hold (by simp) hlog.opened
    · rename_i hheld
      split at hc'
      · cases hc'
        exact h.move hmanager hframe hheld hold (by simp) hlog.failed
      · cases hc'
        refine ⟨hmanager, fun u => ?_, h.free, h.busy, h.running, h.log⟩
        by_cases hu : u = M.caller a
        · rw [hu, hjob]
          exact hheld
        · exact (hframe u hu).trans (h.held u)
  · rename_i s hjob hcloses
    cases hc'
    rw [hjob] at hlog
    exact hreturned _ hcloses (by simp [hjob]) hlog.closed
  · rename_i hjob hcloses
    cases hc'
    rw [hjob] at hlog
    exact hreturned _ hcloses (by simp [hjob]) (by rw [List.append_nil]; exact hlog)
  · cases hc'

theorem SessionInv.started {I : Interp (Host X)} (h : SessionInv roots c) {t : T} {s : Nat} {task : Task}
    {m : Memory} {c' : Config M X} (hjob : c.job t = .ready s task m)
    (hc' : c.started I t s task m = some c') : SessionInv roots c' := by
  unfold Config.started at hc'
  split at hc'
  · cases hc'
  · rename_i l hl
    split at hc'
    · rename_i stack w hrun
      cases hc'
      rw [h.free s l hl] at hrun
      obtain ⟨hstack, hdisciplined⟩ := task.disciplined I hrun
      dsimp only at hstack
      have hlog := h.log t
      rw [hjob] at hlog
      have hothers : ∀ u s' l' events, c.job u = .running s' l' events → u ≠ t ∧ s' ≠ s := by
        intro u s' l' events hu
        refine ⟨?_, ?_⟩
        · rintro rfl
          rw [hjob] at hu
          cases hu
        · rintro rfl
          rw [(h.running u s' l' events hu).1] at hl
          cases hl
      refine ⟨h.manager, ?_, fun s' l' hl' => ?_, fun s' hs' => ?_, fun u s' l' events hu => ?_, ?_⟩
      · exact Config.move_held [] ((h.held t).trans (by rw [hjob]; rfl)) fun u _ => h.held u
      · change (c.setLua s none).lua s' = some l' at hl'
        rw [Config.setLua_lua] at hl'
        split at hl'
        · cases hl'
        · exact h.free s' l' hl'
      · change (c.setLua s none).lua s' = none at hs'
        rw [Config.setLua_lua] at hs'
        split at hs'
        · rename_i hss
          exact ⟨t, _, _, by rw [hss, Config.move_job, if_pos rfl]⟩
        · obtain ⟨u, l', events, hu⟩ := h.busy s' hs'
          exact ⟨u, l', events, by rw [Config.move_job, if_neg (hothers u s' l' events hu).1]; exact hu⟩
      · rw [Config.move_job] at hu
        split at hu
        · cases hu
          exact ⟨Function.update_self .., hstack⟩
        · change c.job u = _ at hu
          obtain ⟨hlua, hrest⟩ := h.running u s' l' events hu
          refine ⟨?_, hrest⟩
          change (c.setLua s none).lua s' = none
          rw [Config.setLua_lua, if_neg (hothers u s' l' events hu).2, hlua]
      · refine Config.move_logged h.log ?_
        rw [List.append_nil]
        exact ⟨task, hlog, hdisciplined⟩
    · cases hc'

theorem SessionInv.finished (h : SessionInv roots c) {t : T} {s : Nat} {after : LuaState X} {events : List Event}
    (hjob : c.job t = .running s after events) :
    SessionInv roots ((c.setLua s (some after)).move t (.closing s) [.ran events]) := by
  obtain ⟨hlua, hstack⟩ := h.running t s after events hjob
  have hlog := h.log t
  rw [hjob] at hlog
  have hothers : ∀ u s' l' events', u ≠ t → c.job u = .running s' l' events' → s' ≠ s := by
    rintro u s' l' events' hut hu rfl
    exact hut (h.exclusive (by rw [hu]; rfl) (by rw [hjob]; rfl))
  refine ⟨h.manager, ?_, fun s' l' hl' => ?_, fun s' hs' => ?_, fun u s' l' events' hu => ?_, ?_⟩
  · exact Config.move_held [.ran events] ((h.held t).trans (by rw [hjob]; rfl)) fun u _ => h.held u
  · change (c.setLua s (some after)).lua s' = some l' at hl'
    rw [Config.setLua_lua] at hl'
    split at hl'
    · rename_i hss
      cases hl'
      rw [hss, hstack]
    · exact h.free s' l' hl'
  · change (c.setLua s (some after)).lua s' = none at hs'
    rw [Config.setLua_lua] at hs'
    split at hs'
    · cases hs'
    · rename_i hss
      obtain ⟨u, l', events', hu⟩ := h.busy s' hs'
      refine ⟨u, l', events', ?_⟩
      rw [Config.move_job, if_neg]
      · exact hu
      · rintro rfl
        rw [hjob] at hu
        cases hu
        exact hss rfl
  · rw [Config.move_job] at hu
    split at hu
    · cases hu
    · rename_i hut
      change c.job u = _ at hu
      obtain ⟨hlua', hrest⟩ := h.running u s' l' events' hu
      refine ⟨?_, hrest⟩
      change (c.setLua s (some after)).lua s' = none
      rw [Config.setLua_lua, if_neg (hothers u s' l' events' hut hu), hlua']
  · obtain ⟨task, hkept, hdisciplined⟩ := hlog
    exact Config.move_logged h.log (hkept.ran hdisciplined)

theorem sessionInv_step (I : Interp (Host X)) (c : Config M X) (a : Act M X) (c' : Config M X)
    (h : SessionInv roots c) (hs : step I c a = some c') : SessionInv roots c' := by
  cases a with
  | call t task m =>
      simp only [step] at hs
      split at hs
      · rename_i hjob
        cases hs
        have hheld := h.held t
        have hlog := h.log t
        rw [hjob] at hheld hlog
        exact h.move h.manager (fun _ _ => rfl) hheld (by simp [hjob]) (by simp) hlog.called
      · cases hs
  | manage a =>
      obtain ⟨manager, hmanager, hc'⟩ := Option.bind_eq_some_iff.mp hs
      exact h.managed hmanager hc'
  | start t =>
      simp only [step] at hs
      split at hs
      · rename_i s task m hjob
        exact h.started hjob hs
      · cases hs
  | finish t =>
      simp only [step] at hs
      split at hs
      · rename_i s after events hjob
        cases hs
        exact h.finished hjob
      · cases hs
  | script s heap =>
      obtain ⟨l, hl, rfl⟩ := Option.map_eq_some_iff.mp hs
      exact h.scripted hl heap

end DromozoaFuse.Session
