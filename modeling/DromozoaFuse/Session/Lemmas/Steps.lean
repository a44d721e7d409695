import DromozoaFuse.Session.Session

/-!
# What one step of a session can do
-/

namespace DromozoaFuse.Session

open Base Lua Operations Fill

variable {T : Type} [DecidableEq T] {M : StateManager T} {X : Type} {I : Interp (Host X)}

omit [DecidableEq T] in
@[simp] theorem Config.setLua_job (c : Config M X) (s : Nat) (l : Option (LuaState X)) : (c.setLua s l).job = c.job :=
  rfl

omit [DecidableEq T] in
@[simp] theorem Config.setLua_log (c : Config M X) (s : Nat) (l : Option (LuaState X)) : (c.setLua s l).log = c.log :=
  rfl

/-- What a step of the manager does to the session. -/
inductive Managed {M : StateManager T} (c : Config M X) (a : M.Act) (manager : M.Config) : Config M X → Prop
  | opened {task m s} : c.job (M.caller a) = .opening task m → M.closes a = false →
      M.held manager (M.caller a) = some s →
      Managed c a manager (Config.move { c with manager } (M.caller a) (.ready s task m)
        [.opened s ((c.lua s).map LuaState.stack)])
  | failed {task m} : c.job (M.caller a) = .opening task m → M.closes a = false →
      M.held manager (M.caller a) = none → M.out manager (M.caller a) = true →
      Managed c a manager (Config.move { c with manager } (M.caller a) .idle [.failed])
  | waits {task m} : c.job (M.caller a) = .opening task m → M.closes a = false →
      M.held manager (M.caller a) = none → M.out manager (M.caller a) = false → Managed c a manager { c with manager }
  | closed {s} : c.job (M.caller a) = .closing s → M.closes a = true →
      Managed c a manager (Config.move { c with manager } (M.caller a)
        (if M.out manager (M.caller a) then .idle else .leaving) [.closed s])
  | left : c.job (M.caller a) = .leaving → M.closes a = true →
      Managed c a manager (Config.move { c with manager } (M.caller a)
        (if M.out manager (M.caller a) then .idle else .leaving) [])

theorem managed_cases {c c' : Config M X} {a : M.Act} {manager : M.Config}
    (h : c.managed a manager = some c') : Managed c a manager c' := by
  unfold Config.managed at h
  dsimp only at h
  split at h
  · rename_i task m hjob hcloses
    split at h
    · rename_i s hheld
      cases h
      exact .opened hjob hcloses hheld
    · rename_i hheld
      split at h
      · rename_i hout
        cases h
        exact .failed hjob hcloses hheld hout
      · rename_i hout
        cases h
        exact .waits hjob hcloses hheld (by simpa using hout)
  · rename_i s hjob hcloses
    cases h
    exact .closed hjob hcloses
  · rename_i hjob hcloses
    cases h
    exact .left hjob hcloses
  · cases h

theorem managed_of_opening {c : Config M X} {a : M.Act} {manager : M.Config} {task : Task}
    {m : Memory} (hjob : c.job (M.caller a) = .opening task m) (ha : M.closes a = false) :
    c.managed a manager ≠ none := by
  unfold Config.managed
  simp only [hjob, ha]
  cases M.held manager (M.caller a) <;> simp

theorem managed_of_closing {c : Config M X} {a : M.Act} {manager : M.Config} {s : Nat}
    (hjob : c.job (M.caller a) = .closing s) (ha : M.closes a = true) : c.managed a manager ≠ none := by
  unfold Config.managed
  simp [hjob, ha]

theorem managed_of_leaving {c : Config M X} {a : M.Act} {manager : M.Config}
    (hjob : c.job (M.caller a) = .leaving) (ha : M.closes a = true) : c.managed a manager ≠ none := by
  unfold Config.managed
  simp [hjob, ha]

theorem Managed.manager {c c' : Config M X} {a : M.Act} {manager : M.Config}
    (h : Managed c a manager c') : c'.manager = manager := by
  cases h <;> rfl

theorem Managed.others {c c' : Config M X} {a : M.Act} {manager : M.Config} (h : Managed c a manager c') {u : T}
    (hu : u ≠ M.caller a) : c'.job u = c.job u := by
  cases h <;> simp [Config.move, Function.update_of_ne hu]

/-- What it does to the job of its caller, who has got a state or is out. -/
inductive Manages (closes : Bool) (held : Option Nat) (out : Bool) : Job X → Job X → Prop
  | opened {task m s} : closes = false → held = some s → Manages closes held out (.opening task m) (.ready s task m)
  | failed {task m} : closes = false → held = none → out = true → Manages closes held out (.opening task m) .idle
  | waits {task m} : closes = false → held = none → out = false →
      Manages closes held out (.opening task m) (.opening task m)
  | closed {s} : closes = true → Manages closes held out (.closing s) (if out then .idle else .leaving)
  | left : closes = true → Manages closes held out .leaving (if out then .idle else .leaving)

theorem Managed.manages {c c' : Config M X} {a : M.Act} {manager : M.Config} (h : Managed c a manager c') :
    Manages (M.closes a) (M.held manager (M.caller a)) (M.out manager (M.caller a)) (c.job (M.caller a))
      (c'.job (M.caller a)) := by
  have hmoved : ∀ (c : Config M X) job notes, (c.move (M.caller a) job notes).job (M.caller a) = job :=
    fun _ _ _ => Function.update_self ..
  cases h with
  | opened hjob hcloses hheld =>
      rw [hmoved, hjob]
      exact .opened hcloses hheld
  | failed hjob hcloses hheld hout =>
      rw [hmoved, hjob]
      exact .failed hcloses hheld hout
  | waits hjob hcloses hheld hout =>
      rw [hjob]
      exact .waits hcloses hheld hout
  | closed hjob hcloses =>
      rw [hmoved, hjob]
      exact .closed hcloses
  | left hjob hcloses =>
      rw [hmoved, hjob]
      exact .left hcloses

/-- What holds of the other threads and of the new job holds after the move. -/
theorem Config.forall_move {c : Config M X} {P : T → Job X → Prop} {t : T} {job : Job X} {notes : List Note}
    (hothers : ∀ u, u ≠ t → P u (c.job u)) (hjob : P t job) (u : T) : P u ((c.move t job notes).job u) := by
  by_cases hu : u = t
  · subst hu
    simpa [Config.move] using hjob
  · simpa [Config.move, Function.update_of_ne hu] using hothers u hu

inductive Trans (I : Interp (Host X)) (c : Config M X) : Act M X → Config M X → Prop
  | call {t task m} : c.job t = .idle → Trans I c (.call t task m) (c.move t (.opening task m) [.called task])
  | manage {a manager c'} : M.step c.manager a = some manager → Managed c a manager c' → Trans I c (.manage a) c'
  | start {t s task m l stack w} : c.job t = .ready s task m → c.lua s = some l →
      ((task.program I).run l.stack).exec ⟨l.heap, m, []⟩ = (.ok ((), stack), w) →
      Trans I c (.start t) ((c.setLua s none).move t (.running s ⟨stack, w.heap⟩ w.trace) [])
  | finish {t s after events} : c.job t = .running s after events →
      Trans I c (.finish t) ((c.setLua s (some after)).move t (.closing s) [.ran events])
  | script {s heap l} : c.lua s = some l → Trans I c (.script s heap) (c.setLua s (some { l with heap }))

theorem step_trans {c c' : Config M X} {a : Act M X} (h : step I c a = some c') : Trans I c a c' := by
  cases a with
  | call t task m =>
      simp only [step] at h
      split at h
      · rename_i hjob
        cases h
        exact .call hjob
      · cases h
  | manage a =>
      obtain ⟨manager, hmanager, hc'⟩ := Option.bind_eq_some_iff.mp h
      exact .manage hmanager (managed_cases hc')
  | start t =>
      simp only [step, Config.started] at h
      split at h
      · rename_i s task m hjob
        split at h
        · cases h
        · rename_i l hlua
          split at h
          · rename_i hexec
            cases h
            exact .start hjob hlua hexec
          · cases h
      · cases h
  | finish t =>
      simp only [step] at h
      split at h
      · rename_i s after events hjob
        cases h
        exact .finish hjob
      · cases h
  | script s heap =>
      obtain ⟨l, hl, rfl⟩ := Option.map_eq_some_iff.mp h
      exact .script hl

theorem step_call {c : Config M X} {t : T} (task : Task) (m : Memory) (hjob : c.job t = .idle) :
    step I c (.call t task m) = some (c.move t (.opening task m) [.called task]) := by
  simp only [step, hjob]

theorem step_start {c : Config M X} {t : T} {s : Nat} {task : Task} {m : Memory} (hjob : c.job t = .ready s task m)
    {l : LuaState X} (hlua : c.lua s = some l) {stack : List Value} {w : World (Host X) Memory}
    (hexec : ((task.program I).run l.stack).exec ⟨l.heap, m, []⟩ = (.ok ((), stack), w)) :
    step I c (.start t) = some ((c.setLua s none).move t (.running s ⟨stack, w.heap⟩ w.trace) []) := by
  simp only [step, hjob, Config.started, hlua, hexec]

theorem step_finish {c : Config M X} {t : T} {s : Nat} {after : LuaState X} {events : List Event}
    (hjob : c.job t = .running s after events) :
    step I c (.finish t) = some ((c.setLua s (some after)).move t (.closing s) [.ran events]) := by
  simp only [step, hjob]

/-- The manager of a session makes the steps of a manager alone. -/
theorem manager_reachable {roots : Nat → Value} {heaps : Nat → Heap (Host X)} {c : Config M X}
    (h : Reachable (step I) (Config.init M roots heaps) c) : Reachable M.step M.init c.manager := by
  obtain ⟨tr, hrun⟩ := h
  induction hrun with
  | nil => exact .refl
  | snoc _ hs ih =>
      cases step_trans hs with
      | manage hmanager hmanaged =>
          rw [hmanaged.manager]
          exact ih.tail hmanager
      | _ => exact ih

end DromozoaFuse.Session
