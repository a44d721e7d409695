import DromozoaFuse.Session.Lemmas.Steps
import DromozoaFuse.Session.Theorems

/-!
# Sessions in one order

However the callbacks of the threads are interleaved, every state has seen one whole callback after the other, in
the order in which they started, and every thread has done what the callbacks of its own did. A callback starts after
it was called and before it gives its state back, so the order is one in which they could have been called.
-/

namespace DromozoaFuse.Session

open Base Lua Operations Fill

variable {T : Type} {M : StateManager T} {X : Type} {I : Interp (Host X)}

/-! ## The order -/

/-- What a state has seen: a whole callback, or scripts besides the callbacks. -/
inductive Entry (T : Type) (X : Type)
  | ran (thread : T) (state : Nat) (task : Task) (m : Memory) (events : List Event)
  | scripted (state : Nat) (heap : Heap (Host X))

def Entry.state : Entry T X → Nat
  | .ran _ s .. | .scripted s _ => s

/-- The callback of a thread, if it is one of its own: which one, on which state, and what it did. -/
def Entry.own [DecidableEq T] (t : T) : Entry T X → Option (Task × Nat × List Event)
  | .ran u s task _ events => if u = t then some (task, s, events) else none
  | .scripted .. => none

def entry (I : Interp (Host X)) (p : Config M X × Act M X) : Option (Entry T X) :=
  match p.2 with
  | .start t =>
      match p.1.job t with
      | .ready s task m =>
          (p.1.lua s).map fun l => .ran t s task m (((task.program I).run l.stack).exec ⟨l.heap, m, []⟩).2.trace
      | _ => none
  | .script s heap => some (.scripted s heap)
  | _ => none

def order (I : Interp (Host X)) (tr : List (Config M X × Act M X)) : List (Entry T X) := tr.filterMap (entry I)

/-! ## What a state has seen -/

/-- One whole callback after the other, from `l₀` on. -/
inductive Replays (I : Interp (Host X)) (l₀ : LuaState X) : List (Entry T X) → LuaState X → Prop
  | nil : Replays I l₀ [] l₀
  | ran {es l t s task m stack w} : Replays I l₀ es l →
      ((task.program I).run l.stack).exec ⟨l.heap, m, []⟩ = (.ok ((), stack), w) →
      Replays I l₀ (es ++ [.ran t s task m w.trace]) ⟨stack, w.heap⟩
  | scripted {es l s heap} : Replays I l₀ es l → Replays I l₀ (es ++ [.scripted s heap]) { l with heap }

/-- The state is free, or a callback that has started runs on it. -/
def Config.Has (c : Config M X) (s : Nat) (l : LuaState X) : Prop :=
  c.lua s = some l ∨ ∃ t events, c.job t = .running s l events

/-- A state that scripts or a starting callback find free is what it has come to. -/
theorem SessionInv.has_free {roots : Nat → Value} {c : Config M X} (hinv : SessionInv roots c) {s : Nat}
    {l l' : LuaState X} (hhas : c.Has s l) (hl' : c.lua s = some l') : l = l' := by
  rcases hhas with hl | ⟨t, events, ht⟩
  · exact Option.some.inj (hl.symm.trans hl')
  · rw [(hinv.running t s l events ht).1] at hl'
    cases hl'

theorem Config.Has.setLua {c : Config M X} {s s' : Nat} {l : LuaState X} (h : c.Has s l) (hs : s ≠ s')
    (l' : Option (LuaState X)) : (c.setLua s' l').Has s l := by
  rcases h with hlua | hrunning
  · apply Or.inl
    rw [Config.setLua_lua, if_neg hs, hlua]
  · exact Or.inr hrunning

variable [DecidableEq T]

theorem Config.Has.move {c : Config M X} {s : Nat} {l : LuaState X} (h : c.Has s l) {t : T} {job : Job X}
    {notes : List Note} (hjob : ∀ l events, c.job t ≠ .running s l events) : (c.move t job notes).Has s l := by
  rcases h with hlua | ⟨u, events, hu⟩
  · exact Or.inl hlua
  · apply Or.inr
    refine ⟨u, events, ?_⟩
    rw [Config.move_job, if_neg]
    · exact hu
    · rintro rfl
      exact hjob l events hu

theorem Managed.has {c c' : Config M X} {a : M.Act} {manager : M.Config} (h : Managed c a manager c') {s : Nat}
    {l : LuaState X} (hhas : c.Has s l) : c'.Has s l := by
  have hhas : Config.Has { c with manager } s l := hhas
  cases h with
  | waits _ _ _ _ => exact hhas
  | opened hjob _ _ | failed hjob _ _ _ | closed hjob _ | left hjob _ =>
      apply hhas.move
      simp [hjob]

/-- The end of a callback gives its state free as it is, and leaves the others. -/
theorem Config.Has.finish {roots : Nat → Value} {c : Config M X} (hinv : SessionInv roots c) {s : Nat} {l : LuaState X}
    (h : c.Has s l) {t : T} {s' : Nat} {after : LuaState X} {events : List Event}
    (hjob : c.job t = .running s' after events) {job : Job X} {notes : List Note} :
    ((c.setLua s' (some after)).move t job notes).Has s l := by
  by_cases hss : s = s'
  · subst hss
    have hl : l = after := by
      rcases h with hlua | ⟨u, events', hu⟩
      · rw [(hinv.running t s after events hjob).1] at hlua
        cases hlua
      · obtain rfl := hinv.exclusive (t := u) (u := t) (s := s) (by rw [hu]; rfl) (by rw [hjob]; rfl)
        rw [hjob] at hu
        cases hu
        rfl
    subst hl
    exact Or.inl (by simp [Config.move, Config.setLua])
  · apply (h.setLua hss _).move
    intro l' events' hrunning
    have hrunning : c.job t = .running s l' events' := hrunning
    rw [hjob] at hrunning
    cases hrunning
    exact hss rfl

/-- One step of the session adds to what a state has seen what the state sees of it. -/
theorem replays_step {roots : Nat → Value} {c c' : Config M X} {a : Act M X} (hinv : SessionInv roots c)
    (hs : step I c a = some c') {s : Nat} {l₀ l : LuaState X} {es : List (Entry T X)} (hhas : c.Has s l)
    (h : Replays I l₀ es l) :
    ∃ l', c'.Has s l' ∧ Replays I l₀ (es ++ (entry I (c, a)).toList.filter (fun e => e.state = s)) l' := by
  have hsame : ∀ {l'}, entry I (c, a) = none ∨ (∃ e, entry I (c, a) = some e ∧ e.state ≠ s) → Replays I l₀ es l' →
      Replays I l₀ (es ++ (entry I (c, a)).toList.filter (fun e => e.state = s)) l' := by
    rintro l' (he | ⟨e, he, hne⟩) h <;> simp [*]
  cases step_trans hs with
  | @call t task m hjob => exact ⟨l, hhas.move (by simp [hjob]), hsame (Or.inl rfl) h⟩
  | manage _ hmanaged => exact ⟨l, hmanaged.has hhas, hsame (Or.inl rfl) h⟩
  | @start t s' task m l' stack w hjob hl' hexec =>
      have hentry : entry I (c, .start t) = some (.ran t s' task m w.trace) := by
        simp only [entry, hjob, hl', Option.map_some, hexec]
      by_cases hss : s = s'
      · subst hss
        obtain rfl := hinv.has_free hhas hl'
        refine ⟨_, Or.inr ⟨t, w.trace, by rw [Config.move_job, if_pos rfl]⟩, ?_⟩
        rw [hentry]
        simpa [Entry.state] using h.ran hexec
      · refine ⟨l, (hhas.setLua hss none).move ?_, hsame (Or.inr ⟨_, hentry, Ne.symm hss⟩) h⟩
        simp [Config.setLua, hjob]
  | finish hjob => exact ⟨l, hhas.finish hinv hjob, hsame (Or.inl rfl) h⟩
  | @script s' heap l' hl' =>
      by_cases hss : s = s'
      · subst hss
        obtain rfl := hinv.has_free hhas hl'
        refine ⟨{ l with heap }, Or.inl (by simp [Config.setLua]), ?_⟩
        simpa [entry, Entry.state] using Replays.scripted (s := s) h
      · exact ⟨l, hhas.setLua hss _, hsame (Or.inr ⟨_, rfl, Ne.symm hss⟩) h⟩

/-! ## What a thread has done -/

/-- The callback that a thread is in, as far as its notes go, and those that it has come through. -/
structure Reading where
  task : Option Task
  state : Option Nat
  done : List (Task × Nat × List Event)

def Reading.note (r : Reading) : Note → Reading
  | .called task => { r with task := some task }
  | .opened s _ => { r with state := some s }
  | .ran events =>
      match r.task, r.state with
      | some task, some s => { r with done := r.done ++ [(task, s, events)] }
      | _, _ => r
  | .failed | .closed _ => r

def reading (log : List Note) : Reading := log.foldl Reading.note ⟨none, none, []⟩

/-- A callback that has not come back has run all the same. -/
def Job.unfinished : Job X → List Note
  | .running _ _ events => [.ran events]
  | _ => []

theorem reading_snoc (log : List Note) (n : Note) : reading (log ++ [n]) = (reading log).note n := by
  simp only [reading, List.foldl_append, List.foldl_cons, List.foldl_nil]

/-- The notes of a thread know which callback it is in, on which state, and which ones have run. -/
def Told (log : List Note) (done : List (Task × Nat × List Event)) : Job X → Prop
  | .opening task _ => (reading log).task = some task ∧ (reading log).done = done
  | .ready s task _ => (reading log).task = some task ∧ (reading log).state = some s ∧ (reading log).done = done
  | .running _ _ events => (reading (log ++ [.ran events])).done = done
  | .idle | .closing _ | .leaving => (reading log).done = done

theorem Told.done {log : List Note} {done : List (Task × Nat × List Event)} {job : Job X} (h : Told log done job) :
    (reading (log ++ job.unfinished)).done = done := by
  cases job with
  | «opening» task m => simpa [Job.unfinished] using h.2
  | ready s task m => simpa [Job.unfinished] using h.2.2
  | running s l events => exact h
  | _ => simpa [Job.unfinished, Told] using h

theorem Config.move_told {c : Config M X} {d : T → List (Task × Nat × List Event)} {t : T} {job : Job X}
    {notes : List Note} (h : ∀ u, u ≠ t → Told (c.log u) (d u) (c.job u))
    (ht : Told (c.log t ++ notes) (d t) job) (u : T) :
    Told ((c.move t job notes).log u) (d u) ((c.move t job notes).job u) := by
  rw [Config.move_job, Config.move_log]
  split
  · rename_i hu
    rw [hu]
    exact ht
  · rename_i hu
    exact h u hu

theorem Managed.told {c c' : Config M X} {a : M.Act} {manager : M.Config} (hm : Managed c a manager c')
    {done : T → List (Task × Nat × List Event)} (h : ∀ u, Told (c.log u) (done u) (c.job u)) (u : T) :
    Told (c'.log u) (done u) (c'.job u) := by
  have htold := h (M.caller a)
  cases hm with
  | waits _ _ _ _ => exact h u
  | opened hjob _ _ =>
      rw [hjob] at htold
      apply Config.move_told fun u _ => h u
      rw [Told, reading_snoc]
      exact ⟨htold.1, rfl, htold.2⟩
  | failed hjob _ _ _ =>
      rw [hjob] at htold
      apply Config.move_told fun u _ => h u
      rw [Told, reading_snoc]
      exact htold.2
  | @closed s hjob _ =>
      rw [hjob] at htold
      apply Config.move_told fun u _ => h u
      have hdone : (reading (c.log (M.caller a) ++ [.closed s])).done = done (M.caller a) := by
        rw [reading_snoc]
        exact htold
      split <;> exact hdone
  | left hjob _ =>
      rw [hjob] at htold
      apply Config.move_told fun u _ => h u
      have hdone : (reading (c.log (M.caller a) ++ [])).done = done (M.caller a) := by
        rw [List.append_nil]
        exact htold
      split <;> exact hdone

/-- One step of the session adds to what a thread has done what the thread does in it. -/
theorem told_step {c c' : Config M X} {a : Act M X} (hs : step I c a = some c')
    {done : T → List (Task × Nat × List Event)} (h : ∀ u, Told (c.log u) (done u) (c.job u)) (u : T) :
    Told (c'.log u) (done u ++ (entry I (c, a)).toList.filterMap (Entry.own u)) (c'.job u) := by
  have hsame : entry I (c, a) = none → (∀ u, Told (c'.log u) (done u) (c'.job u)) →
      Told (c'.log u) (done u ++ (entry I (c, a)).toList.filterMap (Entry.own u)) (c'.job u) := by
    intro he htold
    simpa [he] using htold u
  cases step_trans hs with
  | @call t task m hjob =>
      apply hsame rfl
      apply Config.move_told fun u _ => h u
      have htold := h t
      rw [hjob] at htold
      rw [Told, reading_snoc]
      exact ⟨rfl, htold⟩
  | @manage a manager c' hmanager hmanaged =>
      exact hsame rfl (hmanaged.told h)
  | @start t s task m l stack w hjob hl hexec =>
      have hentry : entry I (c, .start t) = some (.ran t s task m w.trace) := by
        simp only [entry, hjob, hl, Option.map_some, hexec]
      rw [hentry]
      apply Config.move_told (d := fun u => done u ++ [Entry.ran t s task m w.trace].filterMap (Entry.own u))
      · intro u hu
        simpa [Entry.own, hu.symm] using h u
      · have htold := h t
        rw [hjob] at htold
        obtain ⟨htask, hstate, hdone⟩ := htold
        simp [Told, reading_snoc, Reading.note, htask, hstate, hdone, Entry.own]
  | @finish t s after events hjob =>
      apply hsame rfl
      apply Config.move_told fun u _ => h u
      have htold := h t
      rw [hjob] at htold
      exact htold
  | @script s heap l hl =>
      have hentry : (entry I (c, .script s heap)).toList.filterMap (Entry.own u) = [] := rfl
      rw [hentry, List.append_nil]
      exact h u

/-! ## Sessions -/

omit [DecidableEq T] in
theorem order_snoc (I : Interp (Host X)) (tr : List (Config M X × Act M X)) (p : Config M X × Act M X) :
    order I (tr ++ [p]) = order I tr ++ (entry I p).toList := by
  rw [order, List.filterMap_append, filterMap_singleton]
  rfl

/-- With any manager and in every interleaving, what has become of each state is what one whole callback after the
other makes of it, in the one order in which they started, and what each thread has done is what its own
callbacks in this order did. -/
theorem sessions_replayed {roots : Nat → Value} {heaps : Nat → Heap (Host X)} {c : Config M X}
    {tr : List (Config M X × Act M X)} (h : Run (step I) (Config.init M roots heaps) tr c) :
    (∀ s, ∃ l, c.Has s l ∧ Replays I ⟨[roots s], heaps s⟩ ((order I tr).filter (fun e => e.state = s)) l) ∧
      ∀ t, (reading (c.log t ++ (c.job t).unfinished)).done = (order I tr).filterMap (Entry.own t) := by
  constructor
  · intro s
    induction h with
    | nil => exact ⟨_, Or.inl rfl, .nil⟩
    | @snoc tr c a c' hrun hs ih =>
        obtain ⟨l, hhas, hreplays⟩ := ih
        have hinv : SessionInv roots c :=
          Reachable.invariant (sessionInv_init roots heaps) (sessionInv_step I) ⟨_, hrun⟩
        rw [order_snoc, List.filter_append]
        exact replays_step hinv hs hhas hreplays
  · suffices htold : ∀ t, Told (c.log t) ((order I tr).filterMap (Entry.own t)) (c.job t) from fun t => (htold t).done
    induction h with
    | nil => exact fun _ => rfl
    | snoc hrun hs ih =>
        intro t
        rw [order_snoc, List.filterMap_append]
        exact told_step hs ih t

end DromozoaFuse.Session
