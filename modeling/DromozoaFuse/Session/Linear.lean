import DromozoaFuse.Operations.Refinement
import DromozoaFuse.Session.Progress
import DromozoaFuse.Session.Serial

/-!
# Sessions of services

Where the scripts of every state implement a service, a session of threads shows nothing but what these services show
when they serve one callback at a time: each callback is served at once, after it was called and before it returns, by
the service of the state that its thread has got.
-/

namespace DromozoaFuse.Session

open Base Lua Operations Fill

variable {T : Type} {M : StateManager T} {X σ : Type}

/-! ## One callback at a time -/

/-- What a client of the services waits for. -/
inductive Client
  | idle
  | asked (task : Task) (m : Memory)
  | served

/-- The services of the states, and their clients. -/
structure Services (T σ : Type) where
  states : Nat → σ
  client : T → Client

/-- A client asks, a service serves it at once, it gets its answer, or it is told that there is no state. -/
inductive Serving (T : Type)
  | ask (t : T) (task : Task) (m : Memory)
  | serve (t : T) (state : Nat) (answer : Option Answer)
  | reply (t : T)
  | fail (t : T)

def Services.init (start : Nat → σ) : Services T σ := ⟨start, fun _ => .idle⟩

/-- The constructor of `operations` asks for nothing. -/
def perform (A : Service σ) (s : σ) (m : Memory) : Task → Option Answer × σ
  | .operations => (none, s)
  | .callback inv => (some (A.answer s (inv, m)).1, (A.answer s (inv, m)).2)

section

variable [DecidableEq T]

def Services.move (c : Services T σ) (t : T) (client : Client) : Services T σ :=
  { c with client := Function.update c.client t client }

open Classical in
noncomputable def serve (A : Service σ) (c : Services T σ) : Serving T → Option (Services T σ)
  | .ask t task m =>
      match c.client t with
      | .idle => some (c.move t (.asked task m))
      | _ => none
  | .serve t s answer =>
      match c.client t with
      | .asked task m =>
          if answer = (perform A (c.states s) m task).1 then
            some { c.move t .served with states := Function.update c.states s (perform A (c.states s) m task).2 }
          else none
      | _ => none
  | .reply t =>
      match c.client t with
      | .served => some (c.move t .idle)
      | _ => none
  | .fail t =>
      match c.client t with
      | .asked _ _ => some (c.move t .idle)
      | _ => none

end

/-! ## What a session shows -/

def Job.client : Job X → Client
  | .idle => .idle
  | .opening task m | .ready _ task m => .asked task m
  | .running .. | .closing _ | .leaving => .served

/-- What libfuse gets from a callback that starts on a state. -/
def Task.answered (I : Interp (Host X)) (l : LuaState X) (m : Memory) : Task → Option Answer
  | .operations => none
  | .callback inv =>
      match l.stack with
      | ops :: stk => (respond I ops stk l.heap (inv, m)).1.toOption.map Prod.fst
      | [] => none

section

variable [DecidableEq T]

/-- What a step shows: a thread is called, a callback runs on a state, and a thread comes back, with its callback or
without. -/
def shown (I : Interp (Host X)) (p : Config M X × Act M X) : Option (Serving T) :=
  match p.2 with
  | .call t task m => some (.ask t task m)
  | .start t =>
      match p.1.job t with
      | .ready s task m => (p.1.lua s).map fun l => .serve t s (task.answered I l m)
      | _ => none
  | .manage a =>
      match (p.1.job (M.caller a)).client, (step I p.1 p.2).map fun c => (c.job (M.caller a)).client with
      | .asked _ _, some Client.idle => some (.fail (M.caller a))
      | .served, some Client.idle => some (.reply (M.caller a))
      | _, _ => none
  | .finish _ | .script .. => none

end

/-- libfuse calls with room for what it asks for. -/
def Task.Asked (m : Memory) : Task → Prop
  | .operations => True
  | .callback inv => inv.Roomy ∧ Fitting m

/-- Threads are called so, and what scripts do besides the callbacks leaves the service of their state as it is. -/
def Orderly (R : Nat → Heap (Host X) → σ → Prop) (c : Config M X) : Act M X → Prop
  | .call _ task m => task.Asked m
  | .script s heap => ∀ l x, c.lua s = some l → R s l.heap x → R s heap x
  | _ => True

/-! ## Steps -/

variable {I : Interp (Host X)} {A : Service σ}

theorem considering_found {R : Heap (Host X) → σ → Prop} {ops : Value} (himpl : Implements I ops R A) {x : σ}
    (ns : List Operation) (slots : Slots) {w : World (Host X) Memory} (hR : R w.heap x) :
    ∃ slots' w', (ns.foldlM (considering I ops) slots).exec w = (.ok slots', w') ∧ R w'.heap x := by
  induction ns generalizing slots w with
  | nil => exact ⟨slots, w, rfl, hR⟩
  | cons n ns ih =>
      obtain ⟨f, hf, hlooked, -⟩ := himpl.found _ _ hR n
      have hget := Convert.gettable_exec I ops (.string (bytes n.name)) w
      rw [hf] at hget
      have hfirst : (considering I ops slots n).exec w =
          (.ok (if f = .nil then slots else slots.set n), Convert.answered I w ops (.string (bytes n.name))) :=
        Prog.exec_bind_of_ok hget
      rw [List.foldlM_cons, Prog.exec_bind_of_ok hfirst]
      exact ih _ hlooked

/-- What starts on a state comes through, and it is what the service of the state performs. -/
theorem Task.Asked.performed {R : Heap (Host X) → σ → Prop} {ops : Value} (himpl : Implements I ops R A)
    {h : Heap (Host X)} {x : σ} (hR : R h x) {task : Task} {m : Memory} (hasked : task.Asked m) :
    ∃ w, ((task.program I).run [ops]).exec ⟨h, m, []⟩ = (.ok ((), [ops]), w) ∧
      task.answered I ⟨[ops], h⟩ m = (perform A x m task).1 ∧ R w.heap (perform A x m task).2 := by
  cases task with
  | operations =>
      obtain ⟨slots, w, hconsidering, hR⟩ := considering_found himpl considered unconditional
        (w := ⟨h, m, [.opened [ops]]⟩) hR
      have hrun : ((Operations.operations I).run [ops]).exec ⟨h, m, []⟩ =
          (.ok (slots, [ops]), { w with trace := w.trace ++ [.closed [ops]] }) := by
        rw [operations_run, Prog.exec_map, Prog.exec_bind_of_ok (exec_record _ _), List.nil_append,
          Prog.exec_bind_of_ok hconsidering, Prog.exec_bind_of_ok (exec_record _ _)]
        rfl
      refine ⟨{ w with trace := w.trace ++ [.closed [ops]] }, ?_, rfl, hR⟩
      simp only [Task.program, StateT.run_bind, StateT.run_pure]
      exact Prog.exec_bind_of_ok hrun
  | callback inv =>
      obtain ⟨hanswer, hR'⟩ := himpl.respond I hR hasked.1 hasked.2 []
      have hanswered : Task.answered I ⟨[ops], h⟩ m (.callback inv) = (perform A x m (.callback inv)).1 := by
        simp only [Task.answered, hanswer]
        rfl
      simp only [respond, invoke] at hanswer hR'
      rcases hrun : ((Operations.callback I inv.callback).run [ops]).exec ⟨h, m, []⟩ with ⟨out, w⟩
      rw [hrun] at hanswer hR'
      cases out with
      | error e => cases hanswer
      | ok r =>
          have hstack : r.2 = [ops] := congrArg Prod.snd (Except.ok.inj hanswer)
          refine ⟨w, ?_, hanswered, hR'⟩
          simp only [Task.program, StateT.run_bind, StateT.run_pure]
          rw [Prog.exec_bind_of_ok hrun, hstack]
          rfl

/-- The services are where the session is: every client waits for what its thread is about, and every state stands for
the state of its service. -/
structure Matches (roots : Nat → Value) (R : Nat → Heap (Host X) → σ → Prop) (c : Config M X) (l : Services T σ) :
    Prop where
  session : SessionInv roots c
  client : ∀ t, l.client t = (c.job t).client
  asked : ∀ t task m, l.client t = .asked task m → task.Asked m
  states : ∀ s, ∃ lua, c.Has s lua ∧ R s lua.heap (l.states s)

variable {roots : Nat → Value} {R : Nat → Heap (Host X) → σ → Prop} {c c' : Config M X} {l : Services T σ}

theorem Matches.waits (h : Matches roots R c l) {t : T} {job : Job X} (hjob : c.job t = job) :
    l.client t = job.client := by
  rw [h.client t, hjob]

/-- No error escapes from what starts on a state. -/
theorem Matches.raises_not (himpl : ∀ s, Implements I (roots s) (R s) A) (h : Matches roots R c l) {t : T} {s : Nat}
    {task : Task} {m : Memory} {lua : LuaState X} (hjob : c.job t = .ready s task m) (hlua : c.lua s = some lua) :
    ¬ Raises I task m lua := by
  rintro ⟨e, w, hraises⟩
  have hasked : task.Asked m := h.asked t task m (h.waits hjob)
  obtain ⟨lua', hhas, hR⟩ := h.states s
  obtain rfl := h.session.has_free hhas hlua
  obtain ⟨w', hperformed, -⟩ := Task.Asked.performed (himpl s) hR hasked
  rw [h.session.free s lua' hlua] at hraises
  cases hraises.symm.trans hperformed

theorem Matches.quiet (h : Matches roots R c l) (hinv : SessionInv roots c')
    (hclient : ∀ t, (c'.job t).client = (c.job t).client)
    (hstates : ∀ s lua, c.Has s lua → R s lua.heap (l.states s) → ∃ lua', c'.Has s lua' ∧ R s lua'.heap (l.states s)) :
    Matches roots R c' l where
  session := hinv
  client t := (h.client t).trans (hclient t).symm
  asked := h.asked
  states s := by
    obtain ⟨lua, hhas, hR⟩ := h.states s
    exact hstates s lua hhas hR

variable [DecidableEq T]

theorem Services.move_client (l : Services T σ) (t u : T) (client : Client) :
    (l.move t client).client u = if u = t then client else l.client u := by
  simp [move, Function.update_apply]

theorem serve_asked {l : Services T σ} {t : T} {task : Task} {m : Memory} (h : l.client t = .asked task m) (s : Nat) :
    serve A l (.serve t s (perform A (l.states s) m task).1) =
      some { l.move t .served with states := Function.update l.states s (perform A (l.states s) m task).2 } := by
  simp [serve, h]

theorem Matches.move (h : Matches roots R c l) (hinv : SessionInv roots c') {t : T}
    (hothers : ∀ u, u ≠ t → (c'.job u).client = (c.job u).client) {client : Client}
    (hclient : (c'.job t).client = client) (hasked : ∀ task m, client = .asked task m → task.Asked m)
    {states : Nat → σ} (hstates : ∀ s, ∃ lua, c'.Has s lua ∧ R s lua.heap (states s)) :
    Matches roots R c' { l.move t client with states } where
  session := hinv
  client u := by
    change (l.move t client).client u = _
    rw [l.move_client]
    split
    · rename_i hut
      rw [hut, hclient]
    · rename_i hut
      rw [h.client u, hothers u hut]
  asked u task m hu := by
    change (l.move t client).client u = _ at hu
    rw [l.move_client] at hu
    split at hu
    · exact hasked task m hu
    · exact h.asked u task m hu
  states := hstates

/-- The manager acts for a thread that waits for an answer. -/
theorem Managed.busy {a : M.Act} {manager : M.Config} (h : Managed c a manager c') :
    (c.job (M.caller a)).client ≠ .idle := by
  cases h with
  | opened hjob _ _ | failed hjob _ _ _ | waits hjob _ _ _ | closed hjob _ | left hjob _ => simp [hjob, Job.client]

/-- Such a thread comes back, or it goes on waiting. -/
theorem Managed.client {a : M.Act} {manager : M.Config} (h : Managed c a manager c') :
    (c'.job (M.caller a)).client = (c.job (M.caller a)).client ∨ (c'.job (M.caller a)).client = .idle := by
  cases h with
  | opened hjob _ _ => exact Or.inl (by simp [Config.move_job, hjob, Job.client])
  | failed hjob _ _ _ => exact Or.inr (by simp [Config.move_job, Job.client])
  | waits _ _ _ _ => exact Or.inl rfl
  | closed hjob _ | left hjob _ =>
      rw [Config.move_job, if_pos rfl, hjob]
      split
      · exact Or.inr rfl
      · exact Or.inl rfl

/-- What a step shows, the services do, and else they stay where they are. -/
def Follows (I : Interp (Host X)) (A : Service σ) (roots : Nat → Value) (R : Nat → Heap (Host X) → σ → Prop)
    (c : Config M X) (a : Act M X) (c' : Config M X) (l : Services T σ) : Prop :=
  match shown I (c, a) with
  | none => Matches roots R c' l
  | some b => ∃ l', serve A l b = some l' ∧ Matches roots R c' l'

theorem Matches.managed (h : Matches roots R c l) {a : M.Act} {manager : M.Config} (hs : step I c (.manage a) = some c')
    (hm : Managed c a manager c') : Follows I A roots R c (.manage a) c' l := by
  have hinv' : SessionInv roots c' := sessionInv_step I _ _ _ h.session hs
  have hothers : ∀ u, u ≠ M.caller a → (c'.job u).client = (c.job u).client := fun u hu => by rw [hm.others hu]
  have hstates : ∀ s, ∃ lua, c'.Has s lua ∧ R s lua.heap (l.states s) := by
    intro s
    obtain ⟨lua, hhas, hR⟩ := h.states s
    exact ⟨lua, hm.has hhas, hR⟩
  have hclient := h.client (M.caller a)
  simp only [Follows, shown, hs, Option.map_some]
  rcases hm.client with hsame | hback
  · rw [hsame]
    cases hwaits : (c.job (M.caller a)).client with
    | idle => exact absurd hwaits hm.busy
    | asked task m | served =>
        apply h.quiet hinv'
        · intro t
          by_cases ht : t = M.caller a
          · rw [ht, hsame]
          · exact hothers t ht
        · exact fun s lua hhas hR => ⟨lua, hm.has hhas, hR⟩
  · rw [hback]
    cases hwaits : (c.job (M.caller a)).client with
    | idle => exact absurd hwaits hm.busy
    | asked task m | served =>
        rw [hwaits] at hclient
        refine ⟨l.move (M.caller a) .idle, by simp [serve, hclient], ?_⟩
        exact h.move hinv' hothers hback (fun _ _ hidle => by cases hidle) hstates

theorem Matches.started (himpl : ∀ s, Implements I (roots s) (R s) A) (h : Matches roots R c l) {t : T} {s : Nat}
    {task : Task} {m : Memory} {lua : LuaState X} {stack : List Value} {w : World (Host X) Memory}
    (hjob : c.job t = .ready s task m) (hlua : c.lua s = some lua)
    (hexec : ((task.program I).run lua.stack).exec ⟨lua.heap, m, []⟩ = (.ok ((), stack), w))
    (hinv' : SessionInv roots ((c.setLua s none).move t (.running s ⟨stack, w.heap⟩ w.trace) [])) :
    Follows I A roots R c (.start t) ((c.setLua s none).move t (.running s ⟨stack, w.heap⟩ w.trace) []) l := by
  have hclient : l.client t = .asked task m := h.waits hjob
  have hasked : task.Asked m := h.asked t task m hclient
  obtain ⟨lua', hhas, hR⟩ := h.states s
  obtain rfl := h.session.has_free hhas hlua
  have hroot : lua' = ⟨[roots s], lua'.heap⟩ := by
    rw [← h.session.free s lua' hlua]
  obtain ⟨w', hperformed, hanswered, hR'⟩ := Task.Asked.performed (himpl s) hR hasked
  rw [h.session.free s lua' hlua] at hexec
  obtain ⟨hstack, rfl⟩ := Prod.mk.inj (hexec.symm.trans hperformed)
  simp only [Follows, shown, hjob, hlua, Option.map_some]
  rw [hroot, hanswered]
  refine ⟨_, serve_asked hclient s, ?_⟩
  apply h.move hinv'
  · intro u hu
    rw [Config.move_job, if_neg hu]
    rfl
  · rw [Config.move_job, if_pos rfl]
    rfl
  · intro _ _ hserved
    cases hserved
  · intro s'
    by_cases hss : s' = s
    · subst hss
      refine ⟨_, Or.inr ⟨t, w.trace, by rw [Config.move_job, if_pos rfl]⟩, ?_⟩
      simpa using hR'
    · obtain ⟨lua, hhas, hR⟩ := h.states s'
      refine ⟨lua, (hhas.setLua hss none).move (by simp [hjob]), ?_⟩
      rwa [Function.update_of_ne hss]

theorem Matches.step (himpl : ∀ s, Implements I (roots s) (R s) A) (h : Matches roots R c l) {a : Act M X}
    (horderly : Orderly R c a) (hs : Session.step I c a = some c') : Follows I A roots R c a c' l := by
  have hinv' : SessionInv roots c' := sessionInv_step I _ _ _ h.session hs
  cases step_trans hs with
  | @call t task m hjob =>
      have hclient : l.client t = .idle := h.waits hjob
      refine ⟨l.move t (.asked task m), by simp only [serve, hclient], ?_⟩
      apply h.move hinv'
      · intro u hu
        rw [Config.move_job, if_neg hu]
      · rw [Config.move_job, if_pos rfl]
        rfl
      · intro _ _ hasked
        cases hasked
        exact horderly
      · intro s
        obtain ⟨lua, hhas, hR⟩ := h.states s
        exact ⟨lua, hhas.move (by simp [hjob]), hR⟩
  | manage _ hmanaged => exact h.managed hs hmanaged
  | start hjob hlua hexec => exact h.started himpl hjob hlua hexec hinv'
  | @finish t s after events hjob =>
      apply h.quiet hinv'
      · intro u
        rw [Config.move_job, Config.setLua_job]
        split
        · rename_i hut
          rw [hut, hjob]
          rfl
        · rfl
      · exact fun s lua hhas hR => ⟨lua, hhas.finish h.session hjob, hR⟩
  | @script s heap lua hlua =>
      apply h.quiet hinv' (fun _ => rfl)
      intro s' lua' hhas hR
      by_cases hss : s' = s
      · subst hss
        obtain rfl := h.session.has_free hhas hlua
        refine ⟨_, Or.inl (by rw [Config.setLua_lua, if_pos rfl]), horderly _ _ hlua hR⟩
      · exact ⟨lua', hhas.setLua hss _, hR⟩

/-- From wherever the services are where the session is, they go along with it. -/
theorem Matches.run (himpl : ∀ s, Implements I (roots s) (R s) A) (h₀ : Matches roots R c l)
    {tr : List (Config M X × Act M X)} (h : Run (Session.step I) c tr c') (horderly : EveryStep (Orderly R) tr) :
    ∃ tr' l', Run (serve A) l tr' l' ∧ tr'.map Prod.snd = tr.filterMap (shown I) ∧ Matches roots R c' l' := by
  apply h.shown h₀
  · intro c a c' l hmatches horderly hs hnone
    have hfollows : Follows I A roots R c a c' l := hmatches.step himpl horderly hs
    rwa [Follows, hnone] at hfollows
  · intro c a c' l b hmatches horderly hs hb
    have hfollows : Follows I A roots R c a c' l := hmatches.step himpl horderly hs
    rwa [Follows, hb] at hfollows
  · exact horderly

omit [DecidableEq T] in
theorem matches_init {heaps : Nat → Heap (Host X)} {start : Nat → σ} (hR : ∀ s, R s (heaps s) (start s)) :
    Matches roots R (Config.init M roots heaps) (Services.init start) where
  session := sessionInv_init roots heaps
  client _ := rfl
  asked _ _ _ hidle := by cases hidle
  states s := ⟨_, Or.inl rfl, hR s⟩

/-! ## Sessions -/

/-- What is returned where a service serves. -/
def Serving.returned : Serving T → Option Returned
  | .serve _ _ answer => answer.map Answer.returned
  | _ => none

/-- A thread is to set the attribute of the one state, and another one to get it. -/
def setting_and_getting : List (Act (state_manager_main (Fin 2) 0) (Option Text)) :=
  let path := some (bytes "/")
  let name := some (bytes "user.n")
  [.call 0 (.callback (.setxattr path name (fun _ => 97) (CInt.size_t.wrap 3) (CInt.int.wrap 0))) .zeroed,
    .call 1 (.callback (.getxattr path name (CInt.size_t.wrap 3))) .zeroed]

/-- The first one has the state when the second one wants it. -/
def set_then_got : List (Act (state_manager_main (Fin 2) 0) (Option Text)) :=
  [.manage (Manager.Main.Act.open 0), .manage (Manager.Main.Act.open 1), .start 0, .finish 0,
    .manage (Manager.Main.Act.close 0 (some 1)), .manage (Manager.Main.Act.resume 1), .start 1, .finish 1,
    .manage (Manager.Main.Act.close 1 none)]

abbrev kept_init : Config (state_manager_main (Fin 2) 0) (Option Text) :=
  .init _ (fun _ => .table 0) fun _ => kept_heap

theorem setting_and_getting_orderly {R : Nat → Heap (Host (Option Text)) → σ → Prop}
    (c : Config (state_manager_main (Fin 2) 0) (Option Text)) {a : Act (state_manager_main (Fin 2) 0) (Option Text)}
    (ha : a ∈ setting_and_getting) : Orderly R c a := by
  have hfits : Fitting .zeroed := by
    unfold Fitting
    decide
  simp only [setting_and_getting, List.mem_cons, List.not_mem_nil, or_false] at ha
  rcases ha with rfl | rfl
  · exact ⟨trivial, hfits⟩
  · exact ⟨trivial, hfits⟩

section

variable [Fintype T] {state : Nat} {c c' : Config (state_manager_main T state) X}

theorem Settles.orderly {a : Act (state_manager_main T state) X} (h : Settles c a) : Orderly R c a := by
  cases a with
  | call t task m | script s heap => exact h.elim
  | manage a | start t | finish t => trivial

/-- With scripts that implement a service no error escapes from a callback, and so, once no new callback is called, no
script runs besides the callbacks and nobody wakes up spuriously, all of them come through: every client gets its answer
and the state is back. -/
theorem sessions_served {heaps : Nat → Heap (Host X)} {start : Nat → σ}
    {tr₀ tr : List (Config (state_manager_main T state) X × Act (state_manager_main T state) X)}
    (himpl : ∀ s, Implements I (roots s) (R s) A) (hR : ∀ s, R s (heaps s) (start s))
    (h₀ : Run (step I) (Config.init (state_manager_main T state) roots heaps) tr₀ c)
    (horderly : EveryStep (Orderly R) tr₀) (h : Run (step I) c tr c') (hsettles : EveryStep Settles tr) :
    tr.length ≤ Fintype.card T * 5 ∧ ((∀ a, Settles c' a → step I c' a = none) →
      c'.manager = Manager.Main.Config.init state ∧ ∀ t, c'.job t = .idle) := by
  have hreachable := Reachable.trans ⟨tr₀, h₀⟩ ⟨tr, h⟩
  have hstands : ∀ {c}, Reachable (step I) (Config.init (state_manager_main T state) roots heaps) c → Stands c :=
    fun h => h.invariant (fun _ => rfl) stands_step
  refine ⟨settled_length (hstands ⟨tr₀, h₀⟩) h hsettles, fun hleft => ?_⟩
  rcases sessions_stuck (hreachable.invariant (sessionInv_init roots heaps) (sessionInv_step I))
    (Manager.Main.mainInv_reachable (manager_reachable hreachable)) (hstands hreachable) hleft with
    hidle | ⟨t, task, m, lua, hjob, hlua, hraises, -⟩
  · exact hidle
  · obtain ⟨-, l, -, -, hmatches⟩ := Matches.run himpl (matches_init hR) h₀ horderly
    obtain ⟨-, l', -, -, hmatches⟩ := hmatches.run himpl h fun p hp => (hsettles p hp).orderly
    exact absurd hraises (hmatches.raises_not himpl hjob hlua)

end

theorem sessions_served_set_then_got : ∃ tr₀ tr c c', Run (step keeping) kept_init tr₀ c ∧ Run (step keeping) c tr c' ∧
    tr.length = 9 ∧ tr.length ≤ 10 := by
  obtain ⟨⟨tr₀, c⟩, hexec₀, hexec⟩ : ∃ r, exec (step keeping) kept_init setting_and_getting = some r ∧
      (exec (step keeping) r.2 set_then_got).isSome := ⟨_, rfl, by decide +kernel⟩
  obtain ⟨⟨tr, c'⟩, hexec⟩ := Option.isSome_iff_exists.mp hexec
  have horderly : EveryStep (Orderly fun _ => Operations.Kept) tr₀ := by
    intro p hp
    apply setting_and_getting_orderly
    rw [← exec_labels _ hexec₀]
    exact List.mem_map_of_mem hp
  have hsettles : EveryStep Settles tr := by
    intro p hp
    have hlabel : p.2 ∈ tr.map Prod.snd := List.mem_map_of_mem hp
    rw [exec_labels _ hexec] at hlabel
    simp only [set_then_got, List.mem_cons, List.not_mem_nil, or_false] at hlabel
    rcases hlabel with hlabel | hlabel | hlabel | hlabel | hlabel | hlabel | hlabel | hlabel | hlabel <;>
      (rw [hlabel]; trivial)
  refine ⟨tr₀, tr, c, c', run_of_exec _ hexec₀, run_of_exec _ hexec, ?_, ?_⟩
  · rw [← List.length_map, exec_labels _ hexec]
    rfl
  · exact (sessions_served (fun _ => keeping_implements) (fun _ => kept_heap_kept) (run_of_exec _ hexec₀) horderly
      (run_of_exec _ hexec) hsettles).1

end DromozoaFuse.Session
