import DromozoaFuse.Convert.Attributes
import DromozoaFuse.Operations.Lemmas.Dispatch

/-!
# The structs of a callback

What the handler leaves of the heap, what becomes of the result and of the tables of the converters
then, and which parts of the memory the destructors keep.
-/

namespace DromozoaFuse.Operations

open Base Lua DromozoaFuse.Bind DromozoaFuse.Convert Fill

variable {X : Type} (I : Interp (Host X))

/-! ## The handler has been called -/

/-- A callback whose handler `f` has been called with `vs` in `heap`: the reply is answered where the
call has left off, and the handles are reset and the destructors run if that raises nothing. -/
structure Callback.Called (c : Callback) (ops : Value) (stk : List Value) (w : World (Host X) Memory) (f : Value)
    (tables : Tables) (vs : List Value) (handles : List Nat) (heap : Heap (Host X))
    (out : Except Value (Returned × List Value)) (w' : World (Host X) Memory) : Prop where
  converters : tables.map Prod.fst = c.converters
  encodes : Encodes w.mem heap tables
  grown : Grown (I.lookup ops (.string (bytes c.name)) (tabled w.mem c.converters w.heap)).2 heap
  args : List.Forall₂ (Arg.Denotes tables heap) c.args vs
  calls : pcalls (recorded w w') = [.pcall f (ops :: vs) (I.call f (ops :: vs) (heap.share (ops :: vs))).1]
  made : (make_args I tables c.args [ops] []).exec
      (c.looked_up I ops (c.prepared tables (stk.length + 1) (opened (ops :: stk) w))) =
    (.ok (ops :: vs, handles),
      { c.looked_up I ops (c.prepared tables (stk.length + 1) (opened (ops :: stk) w)) with heap })
  ends : ∃ w₀ a w₁, w₀.mem = w.mem ∧ w.trace <+: w₀.trace ∧
    w₀.heap = (I.call f (ops :: vs) (heap.share (ops :: vs))).2 ∧
    (c.finish.answer I (I.call f (ops :: vs) (heap.share (ops :: vs))).1).exec w₀ = (a, w₁) ∧
    ((∃ e, a = .error e ∧ out = .error e ∧ w'.mem = w₁.mem ∧ w'.heap = w₁.heap) ∨
      ∃ r, a = .ok r ∧
        out = ((destruct_all I tables (stk.length + 1)).exec (resetted handles w₁)).1.map (fun _ => (r, ops :: stk)) ∧
        w'.mem = ((destruct_all I tables (stk.length + 1)).exec (resetted handles w₁)).2.mem ∧
        w'.heap = ((destruct_all I tables (stk.length + 1)).exec (resetted handles w₁)).2.heap ∧
        ((destruct_all I tables (stk.length + 1)).exec (resetted handles w₁)).2.trace <+: w'.trace)

variable {I} in
theorem Callback.Called.same {c : Callback} {ops : Value} {stk : List Value} {w : World (Host X) Memory} {f : Value}
    {tables : Tables} {vs : List Value} {handles : List Nat} {heap : Heap (Host X)}
    {out : Except Value (Returned × List Value)} {w' : World (Host X) Memory}
    (h : c.Called I ops stk w f tables vs handles heap out w') (hpush : ∀ arg ∈ c.args, arg.isPush = true) :
    heap = (I.lookup ops (.string (bytes c.name)) (tabled w.mem c.converters w.heap)).2 := by
  obtain ⟨vs', hs', h', hmade, -, -, -, hsame⟩ := make_args_exec I tables c.args [ops] []
    (c.looked_up I ops (c.prepared tables (stk.length + 1) (opened (ops :: stk) w)))
  have heq : heap = h' := congrArg (fun result => result.2.heap) (h.made.symm.trans hmade)
  exact heq.trans (hsame hpush)

theorem callback_called {c : Callback} (hc : c.Counted) (hnodup : c.converters.Nodup) {ops : Value}
    (stk : List Value) {w : World (Host X) Memory} {f : Value}
    (hf : c.handler I ops (tabled w.mem c.converters w.heap) = .ok f) (hnil : f ≠ .nil) :
    ∃ tables vs handles heap, c.Called I ops stk w f tables vs handles heap
      (((callback I c).run (ops :: stk)).exec w).1 (((callback I c).run (ops :: stk)).exec w).2 := by
  have hplays := c.scope_plays I hnodup ops (stk.length + 1) (opened (ops :: stk) w)
  rw [callback_exec I hc]
  rcases hresult : (c.scope I (stk.length + 1) ops).exec (opened (ops :: stk) w) with ⟨out, w'⟩
  rw [hresult] at hplays
  have hscripted : (tabled w.mem c.converters w.heap).Scripted
      (I.lookup ops (.string (bytes c.name)) (tabled w.mem c.converters w.heap)).2 := I.lookup_scripted ..
  obtain ⟨tables, a, w₁, hfst, hencodes, hends, ⟨ev, htr, hpcalls⟩, -, hout⟩ := hplays.tail
  cases hends with
  | raised h => exact absurd (hf.symm.trans h) (by simp)
  | missing h => exact absurd (Except.ok.inj (hf.symm.trans h)) hnil
  | @called g vs hs heap h _ hgrown hargs _ hmake a w₂ hanswer =>
      obtain rfl : f = g := Except.ok.inj (hf.symm.trans h)
      obtain ⟨reads, hanstr, hreads, -⟩ := c.finish.answer_judges I
        (reply_of I f (ops :: vs)
          { c.looked_up I ops (c.prepared tables (stk.length + 1) (opened (ops :: stk) w)) with heap })
        (called I f (ops :: vs)
          { c.looked_up I ops (c.prepared tables (stk.length + 1) (opened (ops :: stk) w)) with heap })
      rw [hanswer] at hanstr
      have hmid : (finished (ops :: stk) (out, w')).2.trace =
          (c.looked_up I ops (c.prepared tables (stk.length + 1) (opened (ops :: stk) w))).trace ++
            (.pcall f (ops :: vs) (I.call f (ops :: vs) (heap.share (ops :: vs))).1 :: reads) ++ ev := by
        rw [htr, ended_trace, hanstr]
        simp [called]
      refine ⟨tables, vs, hs, heap, hfst, (hencodes.scripted hscripted).grown hgrown, hgrown, hargs, ?_, hmake,
        called I f (ops :: vs)
          { c.looked_up I ops (c.prepared tables (stk.length + 1) (opened (ops :: stk) w)) with heap },
        a, w₂, rfl, ?_, rfl, hanswer, ?_⟩
      · rw [pcalls_looked_up I c hmid hpcalls]
        change _ :: pcalls reads = _
        rw [pcalls_reads hreads]
      · simp [called, Callback.looked_up, Callback.prepared, answered, opened]
      · rcases hout with ⟨e, rfl, hout, hmem, hheap⟩ | ⟨r, rfl, hout, hmem, hheap, htrace⟩
        · exact Or.inl ⟨e, rfl, hout, hmem, hheap⟩
        · exact Or.inr ⟨r, rfl, hout, hmem, hheap, htrace⟩

/-! ## What the destructors keep -/

theorem destruct_exec (c : Converter) (r : Nat) (e : Event) (w : World (Host X) Memory) :
    (∃ that', ((do record e; let _ ← decode I c.ptr c.target.steps (.table r) : StatelessM X Unit).exec w).2.mem =
        c.ptr.set w.mem that') ∧
      w.trace ++ [e] <+: ((do record e; let _ ← decode I c.ptr c.target.steps (.table r) :
        StatelessM X Unit).exec w).2.trace := by
  obtain ⟨ev, that', htr, hmem, -⟩ := c.target.decode_audited I c.ptr r { w with trace := w.trace ++ [e] }
  rw [Prog.exec_bind_of_ok (exec_record _ _), ← map_eq_pure_bind, Prog.exec_map]
  exact ⟨⟨that', hmem⟩, ev, htr.symm⟩

theorem destruct_all_keeps {β : Type} {g : Memory → β} (hg : ∀ (c : Converter) m that, g (c.ptr.set m that) = g m)
    (tables : Tables) (height : Nat) (w : World (Host X) Memory) :
    g ((destruct_all I tables height).exec w).2.mem = g w.mem := by
  induction tables generalizing height with
  | nil => rfl
  | cons p tables ih =>
      obtain ⟨c, r⟩ := p
      have ih := ih (height + 1)
      unfold destruct_all
      rcases hx : (destruct_all I tables (height + 1)).exec w with ⟨e | ⟨⟩, w₁⟩
      · rw [hx] at ih
        rw [Prog.exec_bind_of_error hx]
        exact ih
      · rw [hx] at ih
        obtain ⟨⟨that', hmem⟩, -⟩ := destruct_exec I c r (.destructed (height + 1 : Int) (some (.table r))) w₁
        rw [Prog.exec_bind_of_ok hx, hmem, hg]
        exact ih

/-! ## Attributes that a handler returns -/

/-- Where `Q` holds, new objects do not matter, the handler with the name is found, and it returns the
table `r`. -/
structure ReturnsTable (Q : Heap (Host X) → Prop) (ops : Value) (name : String) (r : Nat) : Prop where
  grown : ∀ h h', Q h → Grown h h' → Q h'
  handler : ∃ f, f ≠ .nil ∧
    (∀ h, Q h → (I.lookup ops (.string (bytes name)) h).1 = .ok f ∧ Q (I.lookup ops (.string (bytes name)) h).2) ∧
    ∀ args h, Q h → (I.call f args (h.share args)).1 = .ok (.table r) ∧ Q (I.call f args (h.share args)).2

variable {I} in
theorem invoke_attributes {c : Callback} (hc : c.Counted) (hnodup : c.converters.Nodup)
    (hfinish : c.finish = .reply .stat) {Q : Heap (Host X) → Prop} {ops : Value} {r : Nat}
    (hreturns : ReturnsTable I Q ops c.name r) {f : Bytes → Value} {time : Stamp → Option (Struct timespec)}
    (hwf : WellFormed I Q r f time) (stk : List Value) {w : World (Host X) Memory} (hQ : Q w.heap) :
    DecodedAs f time (((callback I c).run (ops :: stk)).exec w).2.mem.stat ∧
      (c.converters = [] → (((callback I c).run (ops :: stk)).exec w).1 = .ok (.int (CInt.int.wrap 0), ops :: stk)) ∧
      ∀ out, (((callback I c).run (ops :: stk)).exec w).1 = .ok out → out = (.int (CInt.int.wrap 0), ops :: stk) := by
  obtain ⟨g, hnil, hlookup, hcall⟩ := hreturns.handler
  obtain ⟨tables, -, -, hgrown₀, -⟩ := construct_all_exec I c.converters 0 w
  have htabled := hreturns.grown _ _ hQ hgrown₀
  obtain ⟨hfound, hQ₁⟩ := hlookup _ htabled
  obtain ⟨tables, vs, hs, heap, hcalled⟩ := callback_called I hc hnodup stk hfound hnil
  obtain ⟨w₀, a, w₁, hmem₀, -, hheap₀, hanswer, hout⟩ := hcalled.ends
  obtain ⟨hreply, hQ₂⟩ := hcall (ops :: vs) heap (hreturns.grown _ _ hQ₁ hcalled.grown)
  rw [← hheap₀] at hQ₂
  obtain ⟨w₂, hdecode, hdecoded⟩ := hwf.decode stat_ptr hQ₂
  have hstatus : (c.finish.answer I (I.call g (ops :: vs) (heap.share (ops :: vs))).1).exec w₀ =
      (.ok (.int (CInt.int.wrap 0)), w₂) := by
    have hfin : (Other.finish I .stat (.table r)).exec w₀ = (.ok (some (CInt.int.wrap 0)), w₂) :=
      Prog.exec_bind_of_ok hdecode
    have hans : (Other.answer I .stat (.ok (.table r))).exec w₀ = (.ok (CInt.int.wrap 0), w₂) :=
      Prog.exec_bind_of_ok hfin
    rw [hreply, hfinish]
    exact Prog.exec_bind_of_ok hans
  rw [hstatus] at hanswer
  cases hanswer
  rcases hout with ⟨e, he, -⟩ | ⟨r, hr, hout, hmem, -, -⟩
  · cases he
  · cases hr
    rw [hmem, destruct_all_keeps I (g := Memory.stat) (fun c _ _ => by cases c <;> rfl)]
    refine ⟨hdecoded, fun hnone => ?_, fun out hok => ?_⟩
    · obtain rfl := List.map_eq_nil_iff.mp (hcalled.converters.trans hnone)
      rw [hout]
      rfl
    rw [hout] at hok
    cases hd : ((destruct_all I tables (stk.length + 1)).exec (resetted hs w₁)).1 with
    | error e =>
        rw [hd] at hok
        cases hok
    | ok u =>
        rw [hd] at hok
        cases hok
        rfl

/-! ## Callbacks that convert nothing on their way out -/

/-- The result of the handler is not asked for fields. -/
def Finish.isQuiet : Finish → Bool
  | .reply (.nil _) | .init | .destroy => true
  | .reply _ => false

theorem UNEXPECTED_keeps (what : Option Bytes) (w : World (Host X) Memory) :
    ∃ w', (UNEXPECTED what).exec w = (.ok (), w') ∧ w'.heap = w.heap ∧ w'.trace = w.trace ∧
      ∀ c : Converter, c.ptr.get w'.mem = c.ptr.get w.mem :=
  ⟨_, rfl, rfl, rfl, fun c => by cases c <;> rfl⟩

theorem Other.answer_quiet (d : CInt.int.Val) (reply : Except Value Value) (w : World (Host X) Memory) :
    ∃ i w', ((Other.nil d).answer I reply).exec w = (.ok i, w') ∧ w'.heap = w.heap ∧ w'.trace = w.trace ∧
      ∀ c : Converter, c.ptr.get w'.mem = c.ptr.get w.mem := by
  cases reply with
  | ok v =>
      simp only [answer]
      cases status v with
      | some i => exact ⟨i, w, rfl, rfl, rfl, fun _ => rfl⟩
      | none =>
          by_cases hv : v = .nil
          · exact ⟨d, w, by simp [finish, hv], rfl, rfl, fun _ => rfl⟩
          · obtain ⟨w', hexec, hkeeps⟩ := UNEXPECTED_keeps (some (bytes (Other.nil d).what)) w
            refine ⟨ENOSYS, w', ?_, hkeeps⟩
            simp [finish, hv, hexec, Except.map]
  | error e =>
      simp only [answer]
      cases status e with
      | some i => exact ⟨i, w, rfl, rfl, rfl, fun _ => rfl⟩
      | none =>
          obtain ⟨w', hexec, hkeeps⟩ := UNEXPECTED_keeps (I.tolstring e) w
          exact ⟨ENOSYS, w', Prog.exec_bind_of_ok hexec, hkeeps⟩

theorem notified_quiet {α : Type} (a : α) (reply : Except Value Value) (w : World (Host X) Memory) :
    ∃ w', (notified I a reply).exec w = (.ok a, w') ∧ w'.heap = w.heap ∧ w'.trace = w.trace ∧
      ∀ c : Converter, c.ptr.get w'.mem = c.ptr.get w.mem := by
  cases reply with
  | ok v => exact ⟨w, rfl, rfl, rfl, fun _ => rfl⟩
  | error e =>
      obtain ⟨w', hexec, hkeeps⟩ := UNEXPECTED_keeps (I.tolstring e) w
      exact ⟨w', Prog.exec_bind_of_ok hexec, hkeeps⟩

theorem Finish.answer_quiet {finish : Finish} (h : finish.isQuiet = true) (reply : Except Value Value)
    (w : World (Host X) Memory) :
    ∃ r w', (finish.answer I reply).exec w = (.ok r, w') ∧ (finish = .init → r = .self) ∧ w'.heap = w.heap ∧
      w'.trace = w.trace ∧ ∀ c : Converter, c.ptr.get w'.mem = c.ptr.get w.mem := by
  cases finish with
  | reply o =>
      cases o with
      | nil d =>
          obtain ⟨i, w', hexec, hkeeps⟩ := Other.answer_quiet I d reply w
          exact ⟨.int i, w', Prog.exec_bind_of_ok hexec, (fun hinit => by cases hinit), hkeeps⟩
      | _ => cases h
  | init =>
      obtain ⟨w', hexec, hkeeps⟩ := notified_quiet I Returned.self reply w
      exact ⟨.self, w', hexec, fun _ => rfl, hkeeps⟩
  | destroy =>
      obtain ⟨w', hexec, hkeeps⟩ := notified_quiet I Returned.void reply w
      exact ⟨.void, w', hexec, (fun hinit => by cases hinit), hkeeps⟩

/-- The heap in which a callback whose arguments are there already calls the handler with `vs`. -/
def Callback.handed (c : Callback) (ops : Value) (vs : List Value) (w : World (Host X) Memory) : Heap (Host X) :=
  (I.lookup ops (.string (bytes c.name)) (tabled w.mem c.converters w.heap)).2.share (ops :: vs)

/-- What the handler has left is what the destructors find, in `w₁`. -/
structure Callback.Left (c : Callback) (ops : Value) (stk : List Value) (w : World (Host X) Memory) (f : Value)
    (tables : Tables) (vs : List Value) (r : Returned) (w₁ : World (Host X) Memory)
    (out : Except Value (Returned × List Value)) (w' : World (Host X) Memory) : Prop where
  converters : tables.map Prod.fst = c.converters
  encodes : Encodes w.mem (I.lookup ops (.string (bytes c.name)) (tabled w.mem c.converters w.heap)).2 tables
  args : List.Forall₂ (Arg.Denotes tables
    (I.lookup ops (.string (bytes c.name)) (tabled w.mem c.converters w.heap)).2) c.args vs
  calls : pcalls (recorded w w') = [.pcall f (ops :: vs) (I.call f (ops :: vs) (c.handed I ops vs w)).1]
  trace : w.trace <+: w₁.trace
  found : w₁.heap.tables = (I.call f (ops :: vs) (c.handed I ops vs w)).2.tables
  structs : ∀ d : Converter, d.ptr.get w₁.mem = d.ptr.get w.mem
  self : c.finish = .init → r = .self
  out_eq : out = ((destruct_all I tables (stk.length + 1)).exec w₁).1.map fun _ => (r, ops :: stk)
  mem_eq : w'.mem = ((destruct_all I tables (stk.length + 1)).exec w₁).2.mem
  destructed : ((destruct_all I tables (stk.length + 1)).exec w₁).2.trace <+: w'.trace

theorem callback_left {c : Callback} (hc : c.Counted) (hnodup : c.converters.Nodup)
    (hquiet : c.finish.isQuiet = true) (hpush : ∀ arg ∈ c.args, arg.isPush = true) {ops : Value} (stk : List Value)
    {w : World (Host X) Memory} {f : Value} (hf : c.handler I ops (tabled w.mem c.converters w.heap) = .ok f)
    (hnil : f ≠ .nil) :
    ∃ tables vs r w₁, c.Left I ops stk w f tables vs r w₁ (((callback I c).run (ops :: stk)).exec w).1
      (((callback I c).run (ops :: stk)).exec w).2 := by
  obtain ⟨tables, vs, hs, heap, hcalled⟩ := callback_called I hc hnodup stk hf hnil
  obtain rfl := hcalled.same hpush
  obtain ⟨w₀, a, w₁, hmem₀, htrace₀, hheap₀, hanswer, hout⟩ := hcalled.ends
  obtain ⟨r, w₂, hexec, hself, hheap₂, htrace₂, hstructs⟩ := c.finish.answer_quiet I hquiet
    (I.call f (ops :: vs) (c.handed I ops vs w)).1 w₀
  obtain ⟨rfl, rfl⟩ : a = .ok r ∧ w₁ = w₂ := Prod.mk.inj (hanswer.symm.trans hexec)
  rcases hout with ⟨e, he, -⟩ | ⟨r', hr, hout, hmem, -, htrace⟩
  · cases he
  · cases hr
    refine ⟨tables, vs, r, resetted hs w₁, hcalled.converters, hcalled.encodes, hcalled.args, hcalled.calls,
      ?_, ?_, ?_, hself, hout, hmem, htrace⟩
    · exact htrace₂ ▸ htrace₀
    · change w₁.heap.tables = _
      rw [hheap₂, hheap₀]
      rfl
    · intro d
      exact (hstructs d).trans (by rw [hmem₀])

/-! ## Tables that a handler assigns to -/

/-- The members that are not assigned to are 64-bit integers. -/
def Converter.Fits (c : Converter) (that : Struct c.target.layout) (assignments : List (Bytes × Value)) : Prop :=
  ∀ k, .OPT_FIELD k ∈ c.target.steps → CInt.int64_t.Mem (that k).val ∨
    ∃ i, last_assigned assignments (key k) = some (.integer i)

theorem Converter.Narrow.fits {c : Converter} {m : Memory} (h : c.Narrow m) (assignments : List (Bytes × Value)) :
    c.Fits (c.ptr.get m) assignments := fun k hk => Or.inl (h k hk)

def Converter.passed (c : Converter) (m : Memory) : Table := { c.table m with shared := true }

variable {I} in
theorem Callback.Left.passed {c : Callback} {ops : Value} {stk : List Value} {w : World (Host X) Memory} {f : Value}
    {tables : Tables} {vs : List Value} {r : Returned} {w₁ : World (Host X) Memory}
    {out : Except Value (Returned × List Value)} {w' : World (Host X) Memory}
    (h : c.Left I ops stk w f tables vs r w₁ out w') {d : Converter} {t : Nat} (hd : (d, t) ∈ tables)
    (ht : .table t ∈ vs) : (c.handed I ops vs w).tables t = d.passed w.mem := by
  have htable := (h.encodes (d, t) hd).2
  simp only at htable
  simp [handed, Heap.share, ht, htable, Converter.passed]

/-- A table of a converter, given to a script that made some assignments to it. -/
def Converter.assigned (c : Converter) (m : Memory) (assignments : List (Bytes × Value)) : Table :=
  assign_all (c.passed m) assignments

theorem Converter.assigned_metatable (c : Converter) (m : Memory) (assignments : List (Bytes × Value)) :
    (c.assigned m assignments).metatable = false := by
  rw [assigned, assign_all_metatable, passed, table, assign_all_metatable]
  rfl

theorem Converter.assigned_fields (c : Converter) (m : Memory) (assignments : List (Bytes × Value)) :
    (c.assigned m assignments).fields = fields_after c.target assignments (c.ptr.get m) :=
  assign_all_encoded_fields c.target assignments (c.ptr.get m) rfl

/-- The destructor of one converter: its struct changes by the assignments, or it raises an error because
a member does not fit. -/
inductive Converter.Destroyed (c : Converter) (m : Memory) (assignments : List (Bytes × Value))
    (w : World (Host X) Memory) (out : Except Value Unit) (w' : World (Host X) Memory) : Prop
  | written {that'} (hfits : c.Fits (c.ptr.get m) assignments) (hout : out = .ok ())
      (hmem : w'.mem = c.ptr.set w.mem that') (hheap : w'.heap = w.heap)
      (hwritten : WrittenBack c.target assignments (c.ptr.get m) that')
  | refused {e} (hfits : ¬ c.Fits (c.ptr.get m) assignments) (hout : out = .error e)

theorem destroyed_plain {c : Converter} {m : Memory} {assignments : List (Bytes × Value)}
    (hallowed : ∀ field ∈ assignments, Allowed c.target field) {r : Nat} {w : World (Host X) Memory}
    (hplain : (w.heap.tables r).metatable = false)
    (hfields : (w.heap.tables r).fields = fields_after c.target assignments (c.ptr.get m))
    (hm : c.ptr.get w.mem = c.ptr.get m) (e : Event) :
    ∃ out w',
      (do record e; let _ ← decode I c.ptr c.target.steps (.table r) : StatelessM X Unit).exec w = (out, w') ∧
      c.Destroyed m assignments w out w' := by
  obtain ⟨that', hmem, hheap, hcases⟩ := decode_plain I c.target c.flat c.ptr (r := r)
    (w := { w with trace := w.trace ++ [e] }) hplain
  simp only [hfields, c.base_eq, hm] at hcases
  rw [accepts_iff I c.flat hallowed] at hcases
  rw [Prog.exec_bind_of_ok (exec_record _ _), ← map_eq_pure_bind, Prog.exec_map]
  refine ⟨_, _, rfl, ?_⟩
  rcases hcases with ⟨hok, hfits, hconv⟩ | ⟨⟨err, herr⟩, hfits⟩
  · exact .written hfits (by rw [hok]; rfl) hmem hheap (hconv.writtenBack I c.flat hallowed hfits)
  · exact .refused hfits (by rw [herr]; rfl)

theorem destroyed {c : Converter} {m : Memory} {assignments : List (Bytes × Value)}
    (hallowed : ∀ field ∈ assignments, Allowed c.target field) {r : Nat} {w : World (Host X) Memory}
    (htable : w.heap.tables r = c.assigned m assignments) (hm : c.ptr.get w.mem = c.ptr.get m) (e : Event) :
    ∃ out w',
      (do record e; let _ ← decode I c.ptr c.target.steps (.table r) : StatelessM X Unit).exec w = (out, w') ∧
      c.Destroyed m assignments w out w' :=
  destroyed_plain I hallowed (by rw [htable, c.assigned_metatable]) (by rw [htable, c.assigned_fields]) hm e

theorem destroyed_single {c : Converter} {m : Memory} {assignments : List (Bytes × Value)}
    (hallowed : ∀ field ∈ assignments, Allowed c.target field) {r : Nat} {w : World (Host X) Memory}
    (htable : w.heap.tables r = c.assigned m assignments) (hm : c.ptr.get w.mem = c.ptr.get m) (height : Nat) :
    ∃ out w', (destruct_all I [(c, r)] height).exec w = (out, w') ∧ w.trace <+: w'.trace ∧
      c.Destroyed m assignments w out w' := by
  obtain ⟨out, w', hexec, hdestroyed⟩ := destroyed I hallowed htable hm
    (.destructed (height + 1 : Int) (some (.table r)))
  obtain ⟨-, htrace⟩ := destruct_exec I c r (.destructed (height + 1 : Int) (some (.table r))) w
  rw [hexec] at htrace
  refine ⟨out, w', ?_, (List.prefix_append _ _).trans htrace, hdestroyed⟩
  rw [destruct_all, destruct_all, pure_bind, hexec]

/-- The members of `struct fuse_conn_info` and `struct flock` that are not assigned to come back. -/
theorem Converter.fits {c : Converter} (hc : c ≠ .file_info) (m : Memory) (assignments : List (Bytes × Value)) :
    c.Fits (c.ptr.get m) assignments :=
  ((c.narrow_iff m).mpr fun h => absurd h hc).fits assignments

end DromozoaFuse.Operations
