import DromozoaFuse.Operations.Lemmas.Runs

/-!
# The course of an invocation

What an invocation looks up, which protected call it makes, with which arguments, and where its status
and the contents of the buffer come from.
-/

namespace DromozoaFuse.Operations

open Base Lua DromozoaFuse.Bind DromozoaFuse.Convert Fill

variable {X : Type} (I : Interp (Host X))

def isPcall : Event → Bool
  | .pcall .. => true
  | _ => false

def pcalls (ev : List Event) : List Event := ev.filter isPcall

@[simp] theorem pcalls_append (ev ev' : List Event) : pcalls (ev ++ ev') = pcalls ev ++ pcalls ev' :=
  List.filter_append ..

theorem pcalls_reads {ev : List Event} (h : ∀ e ∈ ev, e.isRead = true) : pcalls ev = [] := by
  refine List.filter_eq_nil_iff.mpr fun e he => ?_
  have := h e he
  cases e <;> simp_all [Event.isRead, isPcall]

@[simp] theorem pcalls_constructed (tables : Tables) (height : Nat) :
    pcalls (constructed_events tables height) = [] := by
  induction tables generalizing height with
  | nil => rfl
  | cons p tables ih => exact ih (height + 1)

variable {I} in
theorem Destructs.pcalls_eq {m : Memory} {tables : Tables} {height : Nat} {w w' : World (Host X) Memory}
    {out : Except Value Unit} {ev : List Event} (h : Destructs I m tables height w out w' ev) :
    pcalls ev = [] := by
  refine List.filter_eq_nil_iff.mpr fun e he => ?_
  rcases h.events e he with hread | ⟨i, v, rfl⟩
  · cases e <;> simp_all [Event.isRead, isPcall]
  · simp [isPcall]

/-! ## Tables that scripts have not got -/

theorem assign_all_shared (t : Table) (fields : List (Bytes × Value)) :
    (assign_all t fields).shared = t.shared := by
  induction fields generalizing t with
  | nil => rfl
  | cons field fields ih => exact ih _

theorem Encodes.scripted {m : Memory} {h h' : Heap (Host X)} {tables : Tables} (he : Encodes m h tables)
    (hs : h.Scripted h') : Encodes m h' tables := by
  intro p hp
  obtain ⟨hlt, htable⟩ := he p hp
  have hshared : (h.tables p.2).shared = false := by
    rw [htable, Converter.table, assign_all_shared]
    rfl
  exact ⟨Nat.lt_of_lt_of_le hlt hs.next, (hs.unshared p.2 hlt hshared).trans htable⟩

/-! ## Invocations -/

/-- The course of a callback from `w` to `w'`: the look-up raises; there is no handler; or the handler is
called, and its reply is answered in a world with the memory of `w`. -/
inductive Callback.Course (c : Callback) (ops : Value) (stk : List Value) (w : World (Host X) Memory)
    (out : Except Value (Returned × List Value)) (w' : World (Host X) Memory) : Prop
  | raised {e} (h : c.handler I ops (tabled w.mem c.converters w.heap) = .error e) (hout : out = .error e)
      (hcalls : pcalls (recorded w w') = []) (hbuffer : w'.mem.buffer = w.mem.buffer)
  | missing {tables w₁} (h : c.handler I ops (tabled w.mem c.converters w.heap) = .ok .nil)
      (hfst : tables.map Prod.fst = c.converters) (hencodes : Encodes w.mem w₁.heap tables)
      (hmem : w₁.mem = w.mem)
      (hout : out = ((destruct_all I tables (stk.length + 1)).exec w₁).1.map
        fun _ => (c.finish.missing, ops :: stk))
      (hcalls : pcalls (recorded w w') = []) (hbuffer : w'.mem.buffer = w.mem.buffer)
  | called {tables f vs heap w₀ a w₁} (h : c.handler I ops (tabled w.mem c.converters w.heap) = .ok f)
      (hf : f ≠ .nil) (hfst : tables.map Prod.fst = c.converters) (hencodes : Encodes w.mem heap tables)
      (hargs : List.Forall₂ (Arg.Denotes tables heap) c.args vs)
      (hcalls : pcalls (recorded w w') =
        [.pcall f (ops :: vs) (I.call f (ops :: vs) (heap.share (ops :: vs))).1])
      (hmem : w₀.mem = w.mem)
      (hanswer : (c.finish.answer I (I.call f (ops :: vs) (heap.share (ops :: vs))).1).exec w₀ = (a, w₁))
      (hout : ∀ r, out = .ok r → ∃ returned, a = .ok returned ∧ r = (returned, ops :: stk))
      (hbuffer : w'.mem.buffer = w₁.mem.buffer)

theorem Callback.Plays.tail {c : Callback} {ops : Value} {stk : List Value} {w w' : World (Host X) Memory}
    {out : Except Value Returned} (h : c.Plays I ops (stk.length + 1) w (out, w')) :
    ∃ tables a w₁, tables.map Prod.fst = c.converters ∧
      Encodes w.mem (tabled w.mem c.converters w.heap) tables ∧
      c.Ends I ops tables (c.prepared tables (stk.length + 1) w) (a, w₁) ∧
      (∃ ev, (finished (ops :: stk) (out, w')).2.trace = w₁.trace ++ ev ∧ pcalls ev = []) ∧
      (finished (ops :: stk) (out, w')).2.mem.buffer = w₁.mem.buffer ∧
      ((∃ e, a = .error e ∧ (finished (ops :: stk) (out, w')).1 = .error e ∧
          (finished (ops :: stk) (out, w')).2.mem = w₁.mem ∧ (finished (ops :: stk) (out, w')).2.heap = w₁.heap) ∨
        ∃ r, a = .ok r ∧ (finished (ops :: stk) (out, w')).1 =
            ((destruct_all I tables (stk.length + 1)).exec w₁).1.map (fun _ => (r, ops :: stk)) ∧
          (finished (ops :: stk) (out, w')).2.mem = ((destruct_all I tables (stk.length + 1)).exec w₁).2.mem ∧
          (finished (ops :: stk) (out, w')).2.heap = ((destruct_all I tables (stk.length + 1)).exec w₁).2.heap ∧
          ((destruct_all I tables (stk.length + 1)).exec w₁).2.trace <+:
            (finished (ops :: stk) (out, w')).2.trace) := by
  cases h with
  | @escaped tables e _ hfst hgrown hencodes hends =>
      exact ⟨tables, _, w', hfst, hencodes, hends, ⟨[], by simp [finished], rfl⟩, rfl, Or.inl ⟨e, rfl, rfl, rfl, rfl⟩⟩
  | @left tables a w₁ ev out _ hfst hgrown hencodes hends hdestruct hdestructs =>
      refine ⟨tables, _, w₁, hfst, hencodes, hends, ?_, ?_, Or.inr ⟨a, rfl, ?_, ?_, ?_, ?_⟩⟩
      · cases out with
        | error e => exact ⟨ev, hdestructs.trace, hdestructs.pcalls_eq⟩
        | ok u =>
            refine ⟨ev ++ [.closed (ops :: stk)], ?_, ?_⟩
            · simp [Except.map, finished, hdestructs.trace]
            · rw [pcalls_append, hdestructs.pcalls_eq]
              rfl
      · cases out <;> exact hdestructs.buffer
      · rw [hdestruct]
        cases out <;> rfl
      · rw [hdestruct]
        cases out <;> rfl
      · rw [hdestruct]
        cases out <;> rfl
      · rw [hdestruct]
        cases out with
        | error e => exact List.prefix_refl _
        | ok u => exact List.prefix_append _ _

theorem pcalls_looked_up (c : Callback) {ops : Value} {stk : List Value} {tables : Tables}
    {w w' : World (Host X) Memory} {mid ev : List Event}
    (htr : w'.trace =
      (c.looked_up I ops (c.prepared tables (stk.length + 1) (opened (ops :: stk) w))).trace ++ mid ++ ev)
    (hev : pcalls ev = []) : pcalls (recorded w w') = pcalls mid := by
  have hlookup : (c.looked_up I ops (c.prepared tables (stk.length + 1) (opened (ops :: stk) w))).trace =
      w.trace ++ .opened (ops :: stk) :: (constructed_events tables (stk.length + 1) ++
        [.read ops (.string (bytes c.name)) (c.handler I ops (tabled w.mem c.converters w.heap))]) := by
    simp [Callback.looked_up, Callback.prepared, answered, opened, Callback.handler]
  have hrec : recorded w w' = .opened (ops :: stk) :: (constructed_events tables (stk.length + 1) ++
      [.read ops (.string (bytes c.name)) (c.handler I ops (tabled w.mem c.converters w.heap))]) ++
      (mid ++ ev) := recorded_eq (by rw [htr, hlookup]; simp)
  have hfirst : pcalls (.opened (ops :: stk) :: (constructed_events tables (stk.length + 1) ++
      [.read ops (.string (bytes c.name)) (c.handler I ops (tabled w.mem c.converters w.heap))])) = [] := by
    change pcalls (constructed_events tables (stk.length + 1) ++ _) = []
    rw [pcalls_append, pcalls_constructed]
    rfl
  rw [hrec, pcalls_append, pcalls_append, hev, hfirst, List.nil_append, List.append_nil]

theorem callback_course {c : Callback} (hc : c.Counted) (hnodup : c.converters.Nodup) (ops : Value)
    (stk : List Value) (w : World (Host X) Memory) :
    c.Course I ops stk w (((callback I c).run (ops :: stk)).exec w).1
      (((callback I c).run (ops :: stk)).exec w).2 := by
  have hplays := c.scope_plays I hnodup ops (stk.length + 1) (opened (ops :: stk) w)
  rw [callback_exec I hc]
  generalize (c.scope I (stk.length + 1) ops).exec (opened (ops :: stk) w) = result at hplays
  obtain ⟨tables, a, w₁, hfst, hencodes, hends, ⟨ev, htr, hpcalls⟩, hbuffer, hout⟩ := hplays.tail
  have hscripted : (tabled w.mem c.converters w.heap).Scripted
      (c.looked_up I ops (c.prepared tables (stk.length + 1) (opened (ops :: stk) w))).heap :=
    I.lookup_scripted ..
  have hcalls : ∀ mid, w₁.trace =
      (c.looked_up I ops (c.prepared tables (stk.length + 1) (opened (ops :: stk) w))).trace ++ mid →
      pcalls (recorded w (finished (ops :: stk) result).2) = pcalls mid := fun mid hmid =>
    pcalls_looked_up I c (by rw [htr, hmid]) hpcalls
  cases hends with
  | raised h =>
      rcases hout with ⟨e, he, hout, -⟩ | ⟨r, hr, -⟩
      · cases he
        exact .raised h hout (hcalls [] (by simp)) hbuffer
      · cases hr
  | missing h =>
      rcases hout with ⟨e, he, -⟩ | ⟨r, hr, hout, -⟩
      · cases he
      · cases hr
        exact .missing h hfst (hencodes.scripted hscripted) rfl hout (hcalls [] (by simp)) hbuffer
  | @called f vs hs heap h hf hgrown hargs hhandles _ a w₂ hanswer =>
      obtain ⟨reads, hanstr, hreads, -⟩ := c.finish.answer_judges I
        (reply_of I f (ops :: vs)
          { c.looked_up I ops (c.prepared tables (stk.length + 1) (opened (ops :: stk) w)) with heap })
        (called I f (ops :: vs)
          { c.looked_up I ops (c.prepared tables (stk.length + 1) (opened (ops :: stk) w)) with heap })
      rw [hanswer] at hanstr
      refine .called h hf hfst ((hencodes.scripted hscripted).grown hgrown) hargs ?_ ?_ hanswer ?_ ?_
      · rw [hcalls (.pcall f (ops :: vs) (I.call f (ops :: vs) (heap.share (ops :: vs))).1 :: reads) ?_]
        · change _ :: pcalls reads = _
          rw [pcalls_reads hreads]
        · rw [ended_trace, hanstr]
          simp [called]
      · rfl
      · intro r hr
        rcases hout with ⟨e, -, hout, -⟩ | ⟨returned, ha, hout, -⟩
        · rw [hout] at hr
          cases hr
        · refine ⟨returned, ha, ?_⟩
          rw [hout] at hr
          cases hd : ((destruct_all I tables (stk.length + 1)).exec (ended a hs w₂)).1 with
          | error e =>
              rw [hd] at hr
              cases hr
          | ok u =>
              rw [hd] at hr
              cases hr
              rfl
      · rw [hbuffer, ended_mem]

end DromozoaFuse.Operations
