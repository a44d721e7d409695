import DromozoaFuse.Convert.Lemmas.Targets
import DromozoaFuse.Operations.Lemmas.Phases

/-!
# Runs of a callback

How the scope of the converters can end, what the programs after the protected call ask, and which
answers of scripts keep a callback from returning.
-/

namespace DromozoaFuse.Operations

open Base Lua DromozoaFuse.Bind DromozoaFuse.Convert Fill

variable {X : Type} (I : Interp (Host X))

/-! ## The scope of the converters -/

def Callback.handler (c : Callback) (ops : Value) (h : Heap (Host X)) : Except Value Value :=
  (I.lookup ops (.string (bytes c.name)) h).1

def Callback.looked_up (c : Callback) (ops : Value) (w : World (Host X) Memory) : World (Host X) Memory :=
  answered I w ops (.string (bytes c.name))

/-- The handles are reset, unless an error has left their scope. -/
def ended (out : Except Value Returned) (handles : List Nat) (w : World (Host X) Memory) :
    World (Host X) Memory :=
  match out with
  | .ok _ => resetted handles w
  | .error _ => w

@[simp] theorem ended_trace (out : Except Value Returned) (handles : List Nat) (w : World (Host X) Memory) :
    (ended out handles w).trace = w.trace := by
  cases out <;> rfl

@[simp] theorem ended_mem (out : Except Value Returned) (handles : List Nat) (w : World (Host X) Memory) :
    (ended out handles w).mem = w.mem := by
  cases out <;> rfl

/-- How the scope of the converters ends: the look-up raises, there is no handler, or the handler is
called with what the arguments stand for, libfuse is answered, and the handles are reset. -/
inductive Callback.Ends (c : Callback) (ops : Value) (tables : Tables) (w : World (Host X) Memory) :
    Except Value Returned × World (Host X) Memory → Prop
  | raised {e} (h : c.handler I ops w.heap = .error e) : Ends c ops tables w (.error e, c.looked_up I ops w)
  | missing (h : c.handler I ops w.heap = .ok .nil) :
      Ends c ops tables w (.ok c.finish.missing, c.looked_up I ops w)
  | called {f vs hs heap} (h : c.handler I ops w.heap = .ok f) (hf : f ≠ .nil)
      (hgrown : Grown (c.looked_up I ops w).heap heap)
      (hargs : List.Forall₂ (Arg.Denotes tables heap) c.args vs)
      (hhandles : ∀ r ∈ hs, (c.looked_up I ops w).heap.next ≤ r ∧ r < heap.next)
      (hmake : (make_args I tables c.args [ops] []).exec (c.looked_up I ops w) =
        (.ok (ops :: vs, hs), { c.looked_up I ops w with heap })) {out w'}
      (hanswer : (c.finish.answer I (reply_of I f (ops :: vs) { c.looked_up I ops w with heap })).exec
        (Operations.called I f (ops :: vs) { c.looked_up I ops w with heap }) = (out, w')) :
      Ends c ops tables w (out, ended out hs w')

theorem Callback.inner_ends (c : Callback) (ops : Value) (tables : Tables) (w : World (Host X) Memory) :
    c.Ends I ops tables w ((c.inner I ops tables).exec w) := by
  unfold inner
  have hlookup : (I.gettable ops (.string (bytes c.name)) : StatelessM X Value).exec w =
      (c.handler I ops w.heap, c.looked_up I ops w) := gettable_exec I ops _ w
  rcases hf : c.handler I ops w.heap with e | f
  · rw [hf] at hlookup
    rw [Prog.exec_bind_of_error hlookup]
    exact .raised hf
  · rw [hf] at hlookup
    rw [Prog.exec_bind_of_ok hlookup]
    by_cases hnil : f = .nil
    · subst hnil
      exact .missing hf
    · obtain ⟨vs, hs, heap, hargs, hgrown, hall, hhandles, -⟩ :=
        make_args_exec I tables c.args [ops] [] (c.looked_up I ops w)
      simp only [List.singleton_append, List.append_nil] at hargs
      have hpcall := pcall_exec I f (ops :: vs) { c.looked_up I ops w with heap }
      rcases hanswer : (c.finish.answer I (reply_of I f (ops :: vs) { c.looked_up I ops w with heap })).exec
        (Operations.called I f (ops :: vs) { c.looked_up I ops w with heap }) with ⟨out, w'⟩
      have hends : c.Ends I ops tables w _ := .called hf hnil hgrown hall hhandles hargs hanswer
      rw [if_neg hnil, Prog.exec_bind_of_ok hargs]
      dsimp only
      rw [Prog.exec_bind_of_ok hpcall]
      cases out with
      | error e =>
          rw [Prog.exec_bind_of_error hanswer]
          exact hends
      | ok returned =>
          rw [Prog.exec_bind_of_ok hanswer, Prog.exec_bind_of_ok (resets_exec hs w')]
          exact hends

/-! ## Programs that judge answers -/

/-- What an answer for a key has to meet. -/
abbrev Stage : Type := Bytes → Value → Prop

/-- `x` asks scripts for fields, leaves the structs of the converters alone, and returns exactly when
it refuses no answer. -/
def Judges {α : Type} (stage : Stage) (x : StatelessM X α) (w : World (Host X) Memory) : Prop :=
  ∃ ev, (x.exec w).2.trace = w.trace ++ ev ∧ (∀ e ∈ ev, e.isRead = true) ∧
    (∀ c : Converter, c.ptr.get (x.exec w).2.mem = c.ptr.get w.mem) ∧
    (((∃ a, (x.exec w).1 = .ok a) ∧ ∀ e ∈ ev, ¬ Refused stage e) ∨
      ((∃ e, (x.exec w).1 = .error e) ∧ ∃ e ∈ ev, Refused stage e))

section

variable {α β : Type} {stage : Stage} {w : World (Host X) Memory}

theorem Judges.silent {x : StatelessM X α} (hok : ∃ a, (x.exec w).1 = .ok a)
    (htr : (x.exec w).2.trace = w.trace)
    (hmem : ∀ c : Converter, c.ptr.get (x.exec w).2.mem = c.ptr.get w.mem) : Judges stage x w :=
  ⟨[], by simp [htr], by simp, hmem, Or.inl ⟨hok, by simp⟩⟩

theorem Judges.pure (a : α) : Judges stage (Pure.pure a : StatelessM X α) w := .silent ⟨a, rfl⟩ rfl fun _ => rfl

theorem Judges.bind {x : StatelessM X α} {f : α → StatelessM X β} (hx : Judges stage x w)
    (hf : ∀ a w', Judges stage (f a) w') : Judges stage (x >>= f) w := by
  obtain ⟨ev, htr, hreads, hmem, hcases⟩ := hx
  rcases hxw : x.exec w with ⟨e | a, w₁⟩
  · rw [hxw] at htr hmem hcases
    rcases hcases with ⟨⟨a, ha⟩, -⟩ | ⟨-, href⟩
    · cases ha
    · rw [Judges, Prog.exec_bind_of_error hxw]
      exact ⟨ev, htr, hreads, hmem, Or.inr ⟨⟨e, rfl⟩, href⟩⟩
  · rw [hxw] at htr hmem hcases
    rcases hcases with ⟨-, hnot⟩ | ⟨⟨e, he⟩, -⟩
    · obtain ⟨ev', htr', hreads', hmem', hcases'⟩ := hf a w₁
      rw [Judges, Prog.exec_bind_of_ok hxw]
      refine ⟨ev ++ ev', by rw [htr', htr, List.append_assoc], ?_, fun c => (hmem' c).trans (hmem c), ?_⟩
      · intro e he
        exact (List.mem_append.mp he).elim (hreads e) (hreads' e)
      · rcases hcases' with ⟨hok, hnot'⟩ | ⟨herr, e, he, href⟩
        · exact Or.inl ⟨hok, fun e he => (List.mem_append.mp he).elim (hnot e) (hnot' e)⟩
        · exact Or.inr ⟨herr, e, List.mem_append_right _ he, href⟩
    · cases he

theorem UNEXPECTED_judges (what : Option Bytes) : Judges stage (UNEXPECTED what : StatelessM X Unit) w :=
  .silent ⟨(), rfl⟩ rfl fun c => by cases c <;> rfl

theorem decode_judges (t : Target) (p : Ptr Memory (Struct t.layout))
    (hp : ∀ (c : Converter) m that, c.ptr.get (p.set m that) = c.ptr.get m) (v : Value) :
    Judges (acceptable I t.steps (t.base (p.get w.mem))) (decode I p t.steps v) w := by
  cases v with
  | table r =>
      obtain ⟨ev, that', htr, hmem, -, hreads, hcases⟩ := t.decode_audited I p r w
      rw [t.acceptable_fields] at hcases
      refine ⟨ev, htr, hreads, fun c => by rw [hmem, hp], ?_⟩
      rcases hcases with ⟨hok, hnot, -⟩ | ⟨e, herr, href⟩
      · exact Or.inl ⟨⟨true, hok⟩, hnot⟩
      · exact Or.inr ⟨⟨e, herr⟩, href⟩
  | _ => exact .pure false

end

/-! ## What a callback accepts -/

def anything : Stage := fun _ _ => True

def Other.stage : Other → Stage
  | .stat => acceptable I stat_steps zero
  | .statvfs => acceptable I statvfs_steps zero
  | _ => anything

def Finish.stage : Finish → Stage
  | .reply o => o.stage I
  | .init | .destroy => anything

def Converter.stage (m : Memory) (c : Converter) : Stage := acceptable I c.target.steps (c.ptr.get m)

theorem Other.finish_judges (o : Other) (v : Value) (w : World (Host X) Memory) :
    Judges (o.stage I) (o.finish I v) w := by
  cases o with
  | nil d => exact .pure _
  | stat =>
      exact (decode_judges I .stat stat_ptr (fun c _ _ => by cases c <;> rfl) v).bind fun _ _ => .pure _
  | statvfs =>
      exact (decode_judges I .statvfs statvfs_ptr (fun c _ _ => by cases c <;> rfl) v).bind fun _ _ => .pure _
  | _ =>
      simp only [finish]
      cases I.tolstring v with
      | none => exact .pure none
      | some s => exact .silent ⟨_, rfl⟩ rfl fun c => by cases c <;> rfl

theorem Other.answer_judges (o : Other) (result : Except Value Value) (w : World (Host X) Memory) :
    Judges (o.stage I) (o.answer I result) w := by
  cases result with
  | ok v =>
      simp only [answer]
      cases status v with
      | some i => exact .pure i
      | none =>
          refine (o.finish_judges I v w).bind fun i w' => ?_
          cases i with
          | some i => exact .pure i
          | none => exact (UNEXPECTED_judges _).bind fun _ _ => .pure _
  | error e =>
      simp only [answer]
      cases status e with
      | some i => exact .pure i
      | none => exact (UNEXPECTED_judges _).bind fun _ _ => .pure _

theorem notified_judges {α : Type} (a : α) (result : Except Value Value) (w : World (Host X) Memory) :
    Judges anything (notified I a result) w := by
  cases result with
  | ok v => exact .pure a
  | error e => exact (UNEXPECTED_judges _).bind fun _ _ => .pure _

theorem Finish.answer_judges (finish : Finish) (result : Except Value Value) (w : World (Host X) Memory) :
    Judges (finish.stage I) (finish.answer I result) w := by
  cases finish with
  | reply o => exact (o.answer_judges I result w).bind fun _ _ => .pure _
  | init => exact notified_judges I Returned.self result w
  | destroy => exact notified_judges I Returned.void result w

/-! ## The stages of a callback -/

/-- The stage that an answer belongs to, and the stages of the destructors to come. -/
structure Reader where
  now : Stage
  later : List Stage

/-- A protected call begins the stage of the result, and a destructor its own. -/
def Reader.next (result : Stage) (r : Reader) : Event → Reader
  | .pcall .. => { r with now := result }
  | .destructed .. => ⟨r.later.headD anything, r.later.tail⟩
  | _ => r

def Reader.after (result : Stage) (r : Reader) (ev : List Event) : Reader := ev.foldl (Reader.next result) r

/-- Some answer is refused by the stage it belongs to. -/
def Reader.Refuses (result : Stage) : Reader → List Event → Prop
  | _, [] => False
  | r, e :: ev => Refused r.now e ∨ Refuses result (r.next result e) ev

theorem Reader.refuses_append (result : Stage) (r : Reader) (ev ev' : List Event) :
    r.Refuses result (ev ++ ev') ↔ r.Refuses result ev ∨ (r.after result ev).Refuses result ev' := by
  induction ev generalizing r with
  | nil => simp [Refuses, after]
  | cons e ev ih => simp [Refuses, after, ih, or_assoc]

theorem Reader.after_append (result : Stage) (r : Reader) (ev ev' : List Event) :
    r.after result (ev ++ ev') = (r.after result ev).after result ev' := List.foldl_append ..

theorem Reader.after_reads (result : Stage) (r : Reader) {ev : List Event} (h : ∀ e ∈ ev, e.isRead = true) :
    r.after result ev = r := by
  induction ev with
  | nil => rfl
  | cons e ev ih =>
      have he := h e (by simp)
      cases e with
      | read o key reply => exact ih fun e he => h e (List.mem_cons_of_mem _ he)
      | _ => simp [Event.isRead] at he

theorem Reader.refuses_reads (result : Stage) (r : Reader) {ev : List Event} (h : ∀ e ∈ ev, e.isRead = true) :
    r.Refuses result ev ↔ ∃ e ∈ ev, Refused r.now e := by
  induction ev with
  | nil => simp [Refuses]
  | cons e ev ih =>
      have he := h e (by simp)
      have ih := ih fun e he => h e (List.mem_cons_of_mem _ he)
      cases e with
      | read o key reply => simp [Refuses, next, ih]
      | _ => simp [Event.isRead] at he

theorem Reader.refuses_other {result : Stage} (r : Reader) {e : Event} (ev : List Event)
    (hread : e.isRead = false) (hnext : r.next result e = r) :
    r.Refuses result (e :: ev) ↔ r.Refuses result ev := by
  rw [Refuses, hnext]
  cases e <;> simp_all [Refused, Event.isRead]

theorem Reader.refuses_constructed (result : Stage) (r : Reader) (tables : Tables) (height : Nat)
    (ev : List Event) :
    r.Refuses result (constructed_events tables height ++ ev) ↔ r.Refuses result ev := by
  induction tables generalizing height with
  | nil => rfl
  | cons p tables ih => exact (r.refuses_other _ rfl rfl).trans (ih (height + 1))

theorem Reader.eta (r : Reader) : Reader.mk r.now r.later = r := rfl

def stages (m : Memory) (cs : List Converter) : List Stage := cs.reverse.map (Converter.stage I m)

/-- The events of the destructors but for what they read. -/
def destructed_events : Tables → Nat → List Event
  | [], _ => []
  | (_, r) :: tables, height =>
      destructed_events tables (height + 1) ++ [.destructed (height + 1 : Int) (some (.table r))]

theorem Converter.base_eq (c : Converter) (that : Struct c.target.layout) : c.target.base that = that := by
  cases c <;> rfl

theorem Converter.ptr_set_of_ne {c d : Converter} (h : c ≠ d) (m : Memory) (that : Struct d.target.layout) :
    c.ptr.get (d.ptr.set m that) = c.ptr.get m := by
  cases c <;> cases d <;> first | rfl | exact absurd rfl h

/-- What destructors do: they keep the buffer and the structs of other converters, and return exactly
when they refuse no answer. -/
structure Destructs (m : Memory) (tables : Tables) (height : Nat) (w : World (Host X) Memory)
    (out : Except Value Unit) (w' : World (Host X) Memory) (ev : List Event) : Prop where
  trace : w'.trace = w.trace ++ ev
  buffer : w'.mem.buffer = w.mem.buffer
  others : ∀ c, c ∉ tables.map Prod.fst → c.ptr.get w'.mem = c.ptr.get w.mem
  events : ∀ e ∈ ev, e.isRead = true ∨ ∃ i v, e = .destructed i v
  points : ∀ a, out = .ok a → ev.filter (!·.isRead) = destructed_events tables height
  ok : ∀ a, out = .ok a → ∀ result now later,
    ¬ (Reader.mk now (stages I m (tables.map Prod.fst) ++ later)).Refuses result ev ∧
      ((Reader.mk now (stages I m (tables.map Prod.fst) ++ later)).after result ev).later = later
  error : ∀ e, out = .error e → ∀ result now later,
    (Reader.mk now (stages I m (tables.map Prod.fst) ++ later)).Refuses result ev

theorem stages_cons (m : Memory) (c : Converter) (cs : List Converter) (later : List Stage) :
    stages I m (c :: cs) ++ later = stages I m cs ++ c.stage I m :: later := by
  simp [stages]

/-- The destructors of the inner scopes are followed by the stage of the outer one. -/
theorem Destructs.next {m : Memory} {tables : Tables} {height : Nat} {w w' : World (Host X) Memory}
    {ev : List Event} (h : Destructs I m tables height w (.ok ()) w' ev) (c : Converter) (r : Nat) (i : Int)
    (v : Option Value) (result : Stage) (now : Stage) (later : List Stage) :
    (Reader.mk now (stages I m (((c, r) :: tables).map Prod.fst) ++ later)).after result
        (ev ++ [.destructed i v]) = ⟨c.stage I m, later⟩ ∧
      ¬ (Reader.mk now (stages I m (((c, r) :: tables).map Prod.fst) ++ later)).Refuses result
        (ev ++ [.destructed i v]) := by
  rw [List.map_cons, stages_cons]
  obtain ⟨hnot, hlater⟩ := h.ok () rfl result now (c.stage I m :: later)
  constructor
  · rw [Reader.after_append]
    change Reader.mk _ _ = _
    rw [hlater]
    rfl
  · rw [Reader.refuses_append]
    rintro (h | h | h)
    · exact hnot h
    · exact h
    · exact h

theorem destruct_all_destructs (m : Memory) (tables : Tables) (height : Nat) (w : World (Host X) Memory)
    (hnodup : (tables.map Prod.fst).Nodup)
    (hm : ∀ c ∈ tables.map Prod.fst, c.ptr.get w.mem = c.ptr.get m) :
    ∃ ev, Destructs I m tables height w ((destruct_all I tables height).exec w).1
      ((destruct_all I tables height).exec w).2 ev := by
  induction tables generalizing height w with
  | nil =>
      refine ⟨[], by simp [destruct_all], rfl, fun _ _ => rfl, by simp, fun _ _ => rfl, ?_, ?_⟩
      · intro _ _ result now later
        exact ⟨id, rfl⟩
      · intro e he
        cases he
  | cons p tables ih =>
      obtain ⟨c, r⟩ := p
      simp only [List.map_cons, List.nodup_cons] at hnodup
      obtain ⟨ev, hd⟩ := ih (height + 1) w hnodup.2 fun d hd => hm d (List.mem_cons_of_mem _ hd)
      unfold destruct_all
      rcases hx : (destruct_all I tables (height + 1)).exec w with ⟨e | ⟨⟩, w₁⟩
      · rw [hx] at hd
        rw [Prog.exec_bind_of_error hx]
        refine ⟨ev, hd.trace, hd.buffer, ?_, hd.events, ?_, ?_, ?_⟩
        · intro d hdn
          exact hd.others d fun h => hdn (List.mem_cons_of_mem _ h)
        · intro a ha
          cases ha
        · intro a ha
          cases ha
        · intro e' _ result now later
          rw [List.map_cons, stages_cons]
          exact hd.error e rfl result now _
      · rw [hx] at hd
        have hget : c.ptr.get w₁.mem = c.ptr.get m := (hd.others c hnodup.1).trans (hm c (by simp))
        obtain ⟨ev', that', htr, hmem, -, hreads, hcases⟩ := c.target.decode_audited I c.ptr r
          { w₁ with trace := w₁.trace ++ [.destructed (height + 1 : Int) (some (.table r))] }
        rw [c.target.acceptable_fields] at hcases
        simp only [c.base_eq, hget] at hcases
        rw [Prog.exec_bind_of_ok hx, Prog.exec_bind_of_ok (exec_record _ _), ← map_eq_pure_bind, Prog.exec_map]
        have hbuffer : ∀ m : Memory, (c.ptr.set m that').buffer = m.buffer := fun m => by cases c <;> rfl
        refine ⟨ev ++ [.destructed (height + 1 : Int) (some (.table r))] ++ ev', ?_, ?_, ?_, ?_, ?_, ?_, ?_⟩
        · rw [htr, hd.trace]
          simp
        · rw [hmem, hbuffer, hd.buffer]
        · intro d hdn
          simp only [List.map_cons, List.mem_cons, not_or] at hdn
          rw [hmem, Converter.ptr_set_of_ne hdn.1, hd.others d hdn.2]
        · intro e he
          simp only [List.mem_append, List.mem_singleton] at he
          rcases he with (he | rfl) | he
          · exact hd.events e he
          · exact Or.inr ⟨_, _, rfl⟩
          · exact Or.inl (hreads e he)
        · intro _ _
          have hnone : ev'.filter (!·.isRead) = [] := by
            rw [List.filter_eq_nil_iff]
            intro e he
            simp [hreads e he]
          rw [List.filter_append, List.filter_append, hd.points () rfl, hnone, List.append_nil]
          rfl
        · intro a ha result now later
          obtain ⟨hstate, hnot⟩ := hd.next I c r (height + 1 : Int) (some (.table r)) result now later
          refine ⟨?_, by rw [Reader.after_append _ _ (_ ++ _) ev', hstate, Reader.after_reads _ _ hreads]⟩
          rw [Reader.refuses_append, hstate, Reader.refuses_reads _ _ hreads]
          rintro (h | h)
          · exact hnot h
          · dsimp only at h
            rcases hcases with ⟨-, hok, -⟩ | ⟨e, he, -⟩
            · obtain ⟨e, he, href⟩ := h
              exact hok e he href
            · rw [he] at ha
              cases ha
        · intro e he result now later
          obtain ⟨hstate, -⟩ := hd.next I c r (height + 1 : Int) (some (.table r)) result now later
          rw [Reader.refuses_append, hstate, Reader.refuses_reads _ _ hreads]
          rcases hcases with ⟨hok, -⟩ | ⟨-, -, href⟩
          · rw [hok] at he
            cases he
          · exact Or.inr href

/-! ## Whole callbacks -/

theorem Callback.Ends.trace_eq {c : Callback} {ops : Value} {tables : Tables} {w w' : World (Host X) Memory}
    {out : Except Value Returned} (h : c.Ends I ops tables w (out, w')) :
    ∃ ev, w'.trace = w.trace ++ ev ∧ (∀ d : Converter, d.ptr.get w'.mem = d.ptr.get w.mem) ∧
      (∀ a, out = .ok a → ∀ later, ¬ (Reader.mk anything later).Refuses (c.finish.stage I) ev ∧
        ((Reader.mk anything later).after (c.finish.stage I) ev).later = later) ∧
      (∀ e, out = .error e → ∀ later, (Reader.mk anything later).Refuses (c.finish.stage I) ev) := by
  have hlookup : (c.looked_up I ops w).trace =
      w.trace ++ [.read ops (.string (bytes c.name)) (c.handler I ops w.heap)] := rfl
  cases h with
  | raised h =>
      refine ⟨_, hlookup, fun _ => rfl, ?_, ?_⟩
      · intro a ha
        cases ha
      · intro e _ later
        rw [h]
        exact Or.inl trivial
  | missing h =>
      refine ⟨_, hlookup, fun _ => rfl, ?_, ?_⟩
      · intro a _ later
        rw [h]
        refine ⟨?_, rfl⟩
        rintro (h | h)
        · exact h trivial
        · exact h
      · intro e he
        cases he
  | @called f vs hs heap h hf hgrown hargs hhandles _ out w₁ hanswer =>
      obtain ⟨ev, htr, hreads, hmem, hcases⟩ := c.finish.answer_judges I
        (reply_of I f (ops :: vs) { c.looked_up I ops w with heap })
        (Operations.called I f (ops :: vs) { c.looked_up I ops w with heap })
      rw [hanswer] at htr hmem hcases
      have hstart : ∀ later,
          ¬ (Reader.mk anything later).Refuses (c.finish.stage I) [.read ops (.string (bytes c.name)) (.ok f),
            .pcall f (ops :: vs) (reply_of I f (ops :: vs) { c.looked_up I ops w with heap })] ∧
          (Reader.mk anything later).after (c.finish.stage I) [.read ops (.string (bytes c.name)) (.ok f),
            .pcall f (ops :: vs) (reply_of I f (ops :: vs) { c.looked_up I ops w with heap })] =
            ⟨c.finish.stage I, later⟩ := by
        intro later
        refine ⟨?_, rfl⟩
        rintro (h | h | h)
        · exact h trivial
        · exact h
        · exact h
      refine ⟨[.read ops (.string (bytes c.name)) (.ok f),
        .pcall f (ops :: vs) (reply_of I f (ops :: vs) { c.looked_up I ops w with heap })] ++ ev, ?_, ?_, ?_, ?_⟩
      · rw [ended_trace, htr]
        simp [Operations.called, reply_of, hlookup, h]
      · intro d
        rw [ended_mem, hmem]
        rfl
      · intro a ha later
        obtain ⟨hnot, hstate⟩ := hstart later
        rw [Reader.refuses_append, Reader.after_append, hstate, Reader.after_reads _ _ hreads,
          Reader.refuses_reads _ _ hreads]
        refine ⟨?_, rfl⟩
        rintro (h | ⟨e, he, href⟩)
        · exact hnot h
        · rcases hcases with ⟨-, hok⟩ | ⟨⟨e', he'⟩, -⟩
          · exact hok e he href
          · rw [ha] at he'
            cases he'
      · intro e he later
        obtain ⟨-, hstate⟩ := hstart later
        rw [Reader.refuses_append, hstate, Reader.refuses_reads _ _ hreads]
        rcases hcases with ⟨⟨a, ha⟩, -⟩ | ⟨-, href⟩
        · rw [he] at ha
          cases ha
        · exact Or.inr href

def Callback.prepared (c : Callback) (tables : Tables) (height : Nat) (w : World (Host X) Memory) :
    World (Host X) Memory :=
  { w with
    heap := tabled w.mem c.converters w.heap
    trace := w.trace ++ constructed_events tables height }

/-- The scope of the managed state: construction, the scope of the converters, destruction. -/
inductive Callback.Plays (c : Callback) (ops : Value) (height : Nat) (w : World (Host X) Memory) :
    Except Value Returned × World (Host X) Memory → Prop
  | escaped {tables e w₁} (hfst : tables.map Prod.fst = c.converters)
      (hgrown : Grown w.heap (tabled w.mem c.converters w.heap))
      (hencodes : Encodes w.mem (tabled w.mem c.converters w.heap) tables)
      (hends : c.Ends I ops tables (c.prepared tables height w) (.error e, w₁)) :
      Plays c ops height w (.error e, w₁)
  | left {tables a w₁ ev out w₂} (hfst : tables.map Prod.fst = c.converters)
      (hgrown : Grown w.heap (tabled w.mem c.converters w.heap))
      (hencodes : Encodes w.mem (tabled w.mem c.converters w.heap) tables)
      (hends : c.Ends I ops tables (c.prepared tables height w) (.ok a, w₁))
      (hdestruct : (destruct_all I tables height).exec w₁ = (out, w₂))
      (hdestructs : Destructs I w.mem tables height w₁ out w₂ ev) :
      Plays c ops height w (out.map fun _ => a, w₂)

theorem Callback.scope_plays {c : Callback} (hnodup : c.converters.Nodup) (ops : Value) (height : Nat)
    (w : World (Host X) Memory) : c.Plays I ops height w ((c.scope I height ops).exec w) := by
  unfold scope
  rw [converting_all_eq]
  obtain ⟨tables, hexec, hfst, hgrown, hencodes⟩ := construct_all_exec I c.converters height w
  have hends := c.inner_ends I ops tables (c.prepared tables height w)
  rw [Prog.exec_bind_of_ok hexec]
  rcases hinner : (c.inner I ops tables).exec (c.prepared tables height w) with ⟨e | a, w₁⟩
  · rw [hinner] at hends
    exact (Prog.exec_bind_of_error hinner).symm ▸ .escaped hfst hgrown hencodes hends
  · rw [hinner] at hends
    have hlast := Prog.exec_bind_of_ok (f := fun a => do destruct_all I tables height; return a) hinner
    rw [← map_eq_pure_bind, Prog.exec_map] at hlast
    obtain ⟨-, -, hmem, -⟩ := hends.trace_eq
    obtain ⟨ev, hdestructs⟩ := destruct_all_destructs I w.mem tables height w₁ (hfst ▸ hnodup) fun d _ => hmem d
    exact hlast.symm ▸ .left hfst hgrown hencodes hends rfl hdestructs

theorem Callback.Plays.refuses {c : Callback} {ops : Value} {height : Nat} {w w' : World (Host X) Memory}
    {out : Except Value Returned} (h : c.Plays I ops height w (out, w')) :
    ∃ ev, w'.trace = w.trace ++ ev ∧
      (∀ a, out = .ok a →
        ¬ (Reader.mk anything (stages I w.mem c.converters)).Refuses (c.finish.stage I) ev) ∧
      (∀ e, out = .error e →
        (Reader.mk anything (stages I w.mem c.converters)).Refuses (c.finish.stage I) ev) := by
  cases h with
  | @escaped tables e _ hfst hgrown hencodes hends =>
      obtain ⟨ev, htr, -, -, herror⟩ := hends.trace_eq
      refine ⟨constructed_events tables height ++ ev, by rw [htr, prepared, List.append_assoc], ?_, ?_⟩
      · intro a ha
        cases ha
      · intro _ _
        rw [Reader.refuses_constructed]
        exact herror e rfl _
  | @left tables a w₁ ev' out _ hfst hgrown hencodes hends hdestruct hdestructs =>
      obtain ⟨ev, htr, -, hok, -⟩ := hends.trace_eq
      obtain ⟨hnot, hlater⟩ := hok a rfl (stages I w.mem c.converters)
      have hafter : (Reader.mk anything (stages I w.mem c.converters)).after (c.finish.stage I) ev =
          ⟨((Reader.mk anything (stages I w.mem c.converters)).after (c.finish.stage I) ev).now,
            stages I w.mem (tables.map Prod.fst) ++ []⟩ := by
        conv_lhs => rw [← Reader.eta ((Reader.mk anything _).after (c.finish.stage I) ev), hlater]
        rw [hfst, List.append_nil]
      refine ⟨constructed_events tables height ++ (ev ++ ev'), ?_, ?_, ?_⟩
      · rw [hdestructs.trace, htr]
        simp [prepared]
      · intro _ ha
        obtain ⟨u, hu⟩ : ∃ u, out = .ok u := by
          cases out with
          | error e => cases ha
          | ok u => exact ⟨u, rfl⟩
        rw [Reader.refuses_constructed, Reader.refuses_append, hafter]
        rintro (h | h)
        · exact hnot h
        · exact (hdestructs.ok u hu _ _ _).1 h
      · intro _ he
        obtain ⟨e, he'⟩ : ∃ e, out = .error e := by
          cases out with
          | error e => exact ⟨e, rfl⟩
          | ok u => cases he
        rw [Reader.refuses_constructed, Reader.refuses_append, hafter]
        exact Or.inr (hdestructs.error e he' _ _ _)

def opened (stk : List Value) (w : World (Host X) Memory) : World (Host X) Memory :=
  { w with trace := w.trace ++ [.opened stk] }

/-- How a callback ends: it hands the managed state back if it returns. -/
def finished (stk : List Value) : Except Value Returned × World (Host X) Memory →
    Except Value (Returned × List Value) × World (Host X) Memory
  | (.ok r, w) => (.ok (r, stk), { w with trace := w.trace ++ [.closed stk] })
  | (.error e, w) => (.error e, w)

theorem callback_exec {c : Callback} (hc : c.Counted) (ops : Value) (stk : List Value)
    (w : World (Host X) Memory) :
    ((callback I c : OpM X Returned).run (ops :: stk)).exec w =
      finished (ops :: stk) ((c.scope I (stk.length + 1) ops).exec (opened (ops :: stk) w)) := by
  rw [callback_run I hc, Prog.exec_map, Prog.exec_bind_of_ok (exec_record _ _), Prog.exec_bind, opened]
  rcases (c.scope I (stk.length + 1) ops).exec { w with trace := w.trace ++ [.opened (ops :: stk)] } with
    ⟨e | r, w'⟩ <;> rfl

theorem Invocation.converters_nodup (inv : Invocation) : inv.callback.converters.Nodup := by
  cases inv with
  | lock path command => exact (by decide : ([.file_info, .flock] : List Converter).Nodup)
  | _ => first | exact List.nodup_nil | exact List.nodup_singleton _

end DromozoaFuse.Operations
