import DromozoaFuse.Manager.Theorems
import DromozoaFuse.Session.Lemmas.Interleaved
import DromozoaFuse.Session.Linear

/-!
# Interleaved callbacks are atomic

However the pieces of the callbacks are interleaved, the state managers see to it that each state comes to what whole
callbacks make of it, one after the other. So what holds of sessions of whole callbacks holds of sessions of their
pieces.
-/

namespace DromozoaFuse.Session.Interleaved

open Base Lua Operations Fill Pieces

variable {T : Type} {M : StateManager T} {X σ : Type} {I : Interp (Host X)} {cut : Task → Cut X (Option Returned)}

/-! ## What a run shows -/

/-- A callback counts from its end on. -/
def entry (p : Config M X × Act M X) : Option (Entry T X) :=
  match p.2 with
  | .finish t =>
      match p.1.job t, p.1.started t with
      | .ready s task m, some b => some (.ran t s task m b.events)
      | _, _ => none
  | .script s heap => some (.scripted s heap)
  | _ => none

def order (tr : List (Config M X × Act M X)) : List (Entry T X) := tr.filterMap entry

/-- What libfuse gets from a callback that has returned and left its state so. -/
def Started.answer (b : Started X) (l : LuaState X) (returned : Option Returned) : Option Answer :=
  returned.map fun r => ⟨r, b.mem, l.heap.host.filled.drop b.filled⟩

def Config.served (c : Config M X) (t : T) : Option (Serving T) :=
  match c.job t, c.started t with
  | .ready s _ _, some b =>
      match b.rest with
      | .done (.ok returned) => some (.serve t s (b.answer (c.lua s) returned))
      | _ => none
  | _, _ => none

section

variable [DecidableEq T] [Fintype T]

/-- A thread is called, its callback ends on a state, and it comes back, with its callback or without. -/
def shown (cut : Task → Cut X (Option Returned)) (p : Config M X × Act M X) : Option (Serving T) :=
  match p.2 with
  | .call t task m => some (.ask t task m)
  | .finish t => p.1.served t
  | .manage a =>
      match (p.1.job (M.caller a)).client, (step cut p.1 p.2).map fun c => (c.job (M.caller a)).client with
      | .asked _ _, some Client.idle => some (.fail (M.caller a))
      | .served, some Client.idle => some (.reply (M.caller a))
      | _, _ => none
  | .start _ | .advance _ | .script .. => none

end

/-- Threads are called with room for what they ask for, and what scripts do besides the callbacks leaves the service of
their state as it is. -/
def Orderly (R : Nat → Heap (Host X) → σ → Prop) (c : Config M X) : Act M X → Prop
  | .call _ task m => task.Asked m
  | .script s heap => ∀ x, R s (c.lua s).heap x → R s heap x
  | _ => True

/-! ## Whole callbacks behind the pieces -/

variable {roots : Nat → Value} {c c' : Config M X} {lua : Nat → LuaState X}

/-- What libfuse gets in the end is what it gets from the whole callback. -/
theorem Refined.answer (hcut : ∀ task, Cuts (cut task) (task.returning I)) (h : Refined cut roots c lua) {t : T}
    {s : Nat} {task : Task} {m : Memory} {b : Started X} (hb : c.Inside t s task m b) {returned : Option Returned}
    (hrest : b.rest = .done (.ok returned)) : task.answered I (lua s) m = b.answer (c.lua s) returned := by
  have hran := h.ran hcut hb hrest
  have hfilled := ((h.stems s).underway t task m b hb).2
  have hstack : (lua s).stack = [roots s] := h.session.free s (lua s) rfl
  rw [hstack] at hran
  cases task with
  | operations =>
      obtain ⟨_, -, rfl⟩ := return_ok hran
      rfl
  | callback inv =>
      obtain ⟨r, hrun, rfl⟩ := return_ok hran
      simp only [Task.answered, hstack, respond, invoke, hrun, Started.answer, hfilled]
      rfl

variable [DecidableEq T] [Fintype T]

/-- The session behind it makes the steps that count: none for a piece, and the whole callback for its end. -/
theorem Refined.simulated (hcut : ∀ task, Cuts (cut task) (task.returning I)) (h : Refined cut roots c lua)
    {a : Act M X} (hs : step cut c a = some c') (R : Nat → Heap (Host X) → σ → Prop) :
    ∃ tr lua', Run (Session.step I) (c.session lua) tr (c'.session lua') ∧ Refined cut roots c' lua' ∧
      Session.order I tr = (entry (c, a)).toList ∧ tr.filterMap (Session.shown I) = (shown cut (c, a)).toList ∧
      (Orderly R c a → EveryStep (Session.Orderly R) tr) := by
  cases step_trans hs with
  | @call t task m hjob =>
      obtain ⟨hstep, hrefined⟩ := h.call (I := I) task m hjob
      exact ⟨_, _, .single hstep, hrefined, rfl, rfl, fun hasked => everyStep_singleton.mpr hasked⟩
  | @manage a manager d hmanager hd =>
      obtain ⟨hstep, hrefined⟩ := h.manage (I := I) hmanager hd
      have hshown : Session.shown I (c.session lua, .manage a) = shown cut (c, .manage a) := by
        simp only [Session.shown, shown, hstep, hs]
        rfl
      refine ⟨_, _, .single hstep, hrefined, rfl, ?_, fun _ => everyStep_singleton.mpr trivial⟩
      rw [← hshown]
      exact filterMap_singleton ..
  | start hjob hstarted => exact ⟨[], lua, .nil, h.start hjob hstarted, rfl, rfl, fun _ => by simp [EveryStep]⟩
  | advance hb hrest => exact ⟨[], lua, .nil, h.advance hb hrest, rfl, rfl, fun _ => by simp [EveryStep]⟩
  | @finish t s task m b returned hb hrest =>
      obtain ⟨d, hstart, hfinish, hrefined⟩ := h.finish hcut hb hrest
      have hran := Task.program_of_returning (h.ran hcut hb hrest)
      have hentry : Session.entry I (c.session lua, .start t) = entry (c, .finish t) := by
        have hjob : (c.session lua).job t = .ready s task m := hb.1
        have hlua : (c.session lua).lua s = some (lua s) := rfl
        simp only [Session.entry, entry, hjob, hlua, hb.1, hb.2, Option.map_some, hran]
      have hshown : Session.shown I (c.session lua, .start t) = shown cut (c, .finish t) := by
        have hjob : (c.session lua).job t = .ready s task m := hb.1
        have hlua : (c.session lua).lua s = some (lua s) := rfl
        simp only [Session.shown, shown, Config.served, hjob, hlua, hb.1, hb.2, hrest, Option.map_some,
          h.answer hcut hb hrest]
      refine ⟨_, _, .snoc (.single hstart) hfinish, hrefined, ?_, ?_, ?_⟩
      · rw [← hentry, order_snoc]
        exact (List.append_nil _).trans (filterMap_singleton ..)
      · rw [← hshown, List.filterMap_append]
        exact (List.append_nil _).trans (filterMap_singleton ..)
      · exact fun _ => everyStep_snoc.mpr ⟨everyStep_singleton.mpr trivial, trivial⟩
  | @script s heap hnot =>
      obtain ⟨hstep, hrefined⟩ := h.script (I := I) heap hnot
      refine ⟨_, _, .single hstep, hrefined, rfl, rfl, fun horderly => everyStep_singleton.mpr ?_⟩
      intro l x hl hR
      cases hl
      rw [← (h.stems s).still hnot] at hR
      exact horderly x hR

/-- From wherever it stands, the session behind a run makes a run that shows the same. -/
theorem Refined.run (hcut : ∀ task, Cuts (cut task) (task.returning I)) (h : Refined cut roots c lua)
    {tr : List (Config M X × Act M X)} (hrun : Run (step cut) c tr c') (R : Nat → Heap (Host X) → σ → Prop) :
    ∃ tr' lua', Run (Session.step I) (c.session lua) tr' (c'.session lua') ∧ Refined cut roots c' lua' ∧
      Session.order I tr' = order tr ∧ tr'.filterMap (Session.shown I) = tr.filterMap (shown cut) ∧
      (EveryStep (Orderly R) tr → EveryStep (Session.Orderly R) tr') := by
  induction hrun with
  | nil => exact ⟨[], lua, .nil, h, rfl, rfl, fun _ => by simp [EveryStep]⟩
  | @snoc tr c₁ a c₂ _ hs ih =>
      obtain ⟨tr₁, lua₁, hrun₁, hrefined, horder₁, hshown₁, horderly₁⟩ := ih
      obtain ⟨tr₂, lua₂, hrun₂, hrefined, horder₂, hshown₂, horderly₂⟩ := hrefined.simulated hcut hs R
      refine ⟨tr₁ ++ tr₂, lua₂, hrun₁.append hrun₂, hrefined, ?_, ?_, fun horderly => ?_⟩
      · rw [Session.order, List.filterMap_append, order, List.filterMap_append, filterMap_singleton]
        exact congrArg₂ List.append horder₁ horder₂
      · rw [List.filterMap_append, List.filterMap_append, filterMap_singleton, hshown₁, hshown₂]
      · obtain ⟨htr, ha⟩ := everyStep_snoc.mp horderly
        exact List.forall_mem_append.mpr ⟨horderly₁ htr, horderly₂ ha⟩

/-! ## Sessions -/

omit [DecidableEq T] [Fintype T] in
/-- No job of a session behind such a run is `running`. -/
theorem Refined.running_not (h : Refined cut roots c lua) (t : T) (s : Nat) (l : LuaState X) (events : List Event) :
    c.job t ≠ .running s l events := by
  intro hjob
  cases (h.session.running t s l events hjob).1

omit [DecidableEq T] [Fintype T] in
theorem Refined.unfinished (h : Refined cut roots c lua) (t : T) : (c.job t).unfinished = [] := by
  cases hjob : c.job t with
  | running s l events => exact absurd hjob (h.running_not t s l events)
  | _ => rfl

omit [DecidableEq T] [Fintype T] in
/-- What a state of the session behind a run has come to, the state stems from. -/
theorem Refined.stems_of_has (h : Refined cut roots c lua) {s : Nat} {l : LuaState X} (hhas : (c.session lua).Has s l) :
    c.Stems cut s l := by
  have hl : l = lua s := h.session.has_free hhas rfl
  rw [hl]
  exact h.stems s

/-- With any manager, wherever the callbacks are cut, and in every interleaving of their pieces, each state stems from
what one whole callback after the other makes of it, in the one order in which they ended, and what each thread has
done is what its own callbacks in this order did. -/
theorem sessions_serializable (hcut : ∀ task, Cuts (cut task) (task.returning I)) {heaps : Nat → Heap (Host X)}
    {tr : List (Config M X × Act M X)} (h : Run (step cut) (Config.init M roots heaps) tr c) :
    (∀ s, ∃ l, c.Stems cut s l ∧ Replays I ⟨[roots s], heaps s⟩ ((order tr).filter fun e => e.state = s) l) ∧
      ∀ t, (reading (c.log t)).done = (order tr).filterMap (Entry.own t) := by
  obtain ⟨tr', lua, hrun, hrefined, horder, -⟩ := (refined_init roots heaps).run hcut h fun _ _ (_ : Unit) => True
  obtain ⟨hstates, hthreads⟩ := sessions_replayed hrun
  rw [horder] at hstates hthreads
  constructor
  · intro s
    obtain ⟨l, hhas, hreplays⟩ := hstates s
    exact ⟨l, hrefined.stems_of_has hhas, hreplays⟩
  · intro t
    have hdone := hthreads t
    have hunfinished : ((c.session lua).job t).unfinished = [] := hrefined.unfinished t
    rwa [hunfinished, List.append_nil] at hdone

/-- Two threads run `destroy` on two states of a pool, piece by piece in turns. One of them comes to its end and the
other one is half through. -/
theorem sessions_serializable_destroy : ∃ tr, ∃ c : Config (state_manager_pool (Fin 2) Manager.twoPool) Unit,
    Run (step (Task.cut (.constant (.ok .nil))))
      (Config.init (state_manager_pool (Fin 2) Manager.twoPool) (fun _ => .table 0) fun _ => destroyable) tr c ∧
    c.on 1 = some 1 ∧ (order tr).length = 1 ∧
    ∀ s, ∃ l, c.Stems (Task.cut (.constant (.ok .nil))) s l ∧
      Replays (.constant (.ok .nil)) ⟨[.table 0], destroyable⟩ ((order tr).filter fun e => e.state = s) l := by
  have h : (Base.exec (step (Task.cut (.constant (.ok .nil))))
      (Config.init (state_manager_pool (Fin 2) Manager.twoPool) (fun _ => .table 0) fun _ => destroyable)
      ([.call 0 (.callback .destroy) .zeroed, .call 1 (.callback .destroy) .zeroed, .manage (Manager.Act.open 0),
        .manage (Manager.Act.open 1), .manage (Manager.Act.construct 0), .manage (Manager.Act.construct 1), .start 0,
        .start 1] ++ (List.replicate 4 [.advance 0, .advance 1, .advance 0]).flatten ++ [.finish 0])).map
      (fun r => (r.2.on 1, (order r.1).length)) = some (some 1, 1) := by
    decide +kernel
  obtain ⟨⟨tr, c⟩, hexec, hseen⟩ := Option.map_eq_some_iff.mp h
  obtain ⟨hon, horder⟩ := Prod.mk.inj hseen
  exact ⟨tr, c, run_of_exec _ hexec, hon, horder,
    (sessions_serializable (Task.cuts _) (run_of_exec _ hexec)).1⟩

/-- With any manager, wherever the callbacks are cut, and in every interleaving of their pieces, a session of scripts
that implement a service in each state shows a run of these services, and each state stems from one that stands for
what has become of its service. -/
theorem sessions_linearizable {A : Service σ} {R : Nat → Heap (Host X) → σ → Prop} {heaps : Nat → Heap (Host X)}
    {start : Nat → σ} (hcut : ∀ task, Cuts (cut task) (task.returning I))
    (himpl : ∀ s, Implements I (roots s) (R s) A) (hR : ∀ s, R s (heaps s) (start s))
    {tr : List (Config M X × Act M X)} (h : Run (step cut) (Config.init M roots heaps) tr c)
    (horderly : EveryStep (Orderly R) tr) :
    ∃ tr' l, Run (serve A) (.init start) tr' l ∧ tr'.map Prod.snd = tr.filterMap (shown cut) ∧
      (∀ t, l.client t = (c.job t).client) ∧ ∀ s, ∃ lua, c.Stems cut s lua ∧ R s lua.heap (l.states s) := by
  obtain ⟨tr', lua, hrun, hrefined, -, hshown, horderly'⟩ := (refined_init roots heaps).run hcut h R
  obtain ⟨tr'', l, hserved, hlabels, hmatches⟩ := Matches.run himpl (matches_init hR) hrun (horderly' horderly)
  refine ⟨tr'', l, hserved, hlabels.trans hshown, hmatches.client, fun s => ?_⟩
  obtain ⟨lua', hhas, hR⟩ := hmatches.states s
  exact ⟨lua', hrefined.stems_of_has hhas, hR⟩

/-- A thread sets the attribute of the one state, and another one wants the state to get it when the first one is half
through. -/
def set_then_got (t u : Fin 2) : List (Act (state_manager_main (Fin 2) 0) (Option Text)) :=
  let path := some (bytes "/")
  let name := some (bytes "user.n")
  [.call t (.callback (.setxattr path name (fun _ => 97) (CInt.size_t.wrap 3) (CInt.int.wrap 0))) .zeroed,
    .call u (.callback (.getxattr path name (CInt.size_t.wrap 3))) .zeroed,
    .manage (Manager.Main.Act.open t), .start t] ++
  List.replicate 5 (.advance t) ++ [.manage (Manager.Main.Act.open u)] ++ List.replicate 10 (.advance t) ++
  [.finish t, .manage (Manager.Main.Act.close t (some u)), .manage (Manager.Main.Act.resume u), .start u] ++
  List.replicate 14 (.advance u) ++ [.finish u, .manage (Manager.Main.Act.close u none)]

theorem set_then_got_orderly {R : Nat → Heap (Host (Option Text)) → σ → Prop}
    (c : Config (state_manager_main (Fin 2) 0) (Option Text)) {a : Act (state_manager_main (Fin 2) 0) (Option Text)}
    {t u : Fin 2} (ha : a ∈ set_then_got t u) : Orderly R c a := by
  have hfits : Fitting .zeroed := by
    unfold Fitting
    decide
  simp only [set_then_got, List.mem_append, List.mem_cons, List.mem_replicate, List.not_mem_nil, or_false] at ha
  rcases ha with
    ((((((rfl | rfl | rfl | rfl) | ⟨-, rfl⟩) | rfl) | ⟨-, rfl⟩) | (rfl | rfl | rfl | rfl)) | ⟨-, rfl⟩) | rfl | rfl
  · exact ⟨trivial, hfits⟩
  · exact ⟨trivial, hfits⟩
  all_goals trivial

theorem sessions_linearizable_set_then_got : ∃ tr, ∃ c : Config (state_manager_main (Fin 2) 0) (Option Text),
    ∃ tr', ∃ l : Services (Fin 2) (Option Text),
      Run (step (Task.cut keeping)) (.init _ (fun _ => .table 0) fun _ => kept_heap) tr c ∧
      Run (serve one_attribute) (.init fun _ => none) tr' l ∧
      (tr'.map Prod.snd).filterMap Serving.returned = [.int (CInt.int.wrap 0), .int (CInt.int.wrap 3)] := by
  have h : (Base.exec (step (Task.cut keeping))
      (.init (state_manager_main (Fin 2) 0) (fun _ => .table 0) fun _ => kept_heap) (set_then_got 0 1)).map
      (fun r => (r.1.filterMap (shown (Task.cut keeping))).filterMap Serving.returned) =
        some [.int (CInt.int.wrap 0), .int (CInt.int.wrap 3)] := by
    decide +kernel
  obtain ⟨⟨tr, c⟩, hexec, hreturned⟩ := Option.map_eq_some_iff.mp h
  have hrun := run_of_exec _ hexec
  have horderly : EveryStep (Orderly fun _ => Operations.Kept) tr := by
    intro p hp
    apply set_then_got_orderly
    rw [← exec_labels _ hexec]
    exact List.mem_map_of_mem hp
  obtain ⟨tr', l, hserved, hlabels, -⟩ := sessions_linearizable (Task.cuts _) (fun _ => keeping_implements)
    (fun _ => kept_heap_kept) hrun horderly
  exact ⟨tr, c, tr', l, hrun, hserved, by rw [hlabels, hreturned]⟩

end DromozoaFuse.Session.Interleaved
