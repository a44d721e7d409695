import DromozoaFuse.Operations.Lemmas.Buffers
import DromozoaFuse.Operations.Lemmas.Discipline

/-! # Main results about the callbacks -/

namespace DromozoaFuse.Operations

open Base Lua DromozoaFuse.Bind DromozoaFuse.Convert Fill

variable {X : Type} (I : Interp (Host X))

/-- A callback on a managed state with the operations value on the top of its stack. -/
def invoke (inv : Invocation) (ops : Value) (stk : List Value) (w : World (Host X) Memory) :
    Except Value (Returned × List Value) × World (Host X) Memory :=
  ((callback I inv.callback).run (ops :: stk)).exec w

/-! ## Errors that escape -/

/-- The callback returns to libfuse, and the managed state has been handed back. -/
def Returns (ops : Value) (stk : List Value) (w : World (Host X) Memory)
    (out : Except Value (Returned × List Value) × World (Host X) Memory) : Prop :=
  ∃ r, out.1 = .ok (r, ops :: stk) ∧ .closed (ops :: stk) ∈ recorded w out.2

/-- No answer outside of the protected call is refused: not the one to the look-up of the handler, not
those that the conversion of its result gets, and not those that the conversions back of the structs
get. -/
def Accepted (inv : Invocation) (m : Memory) (ev : List Event) : Prop :=
  ¬ (Reader.mk anything (stages I m inv.callback.converters)).Refuses (inv.callback.finish.stage I) ev

theorem invoke_ok_iff (inv : Invocation) (ops : Value) (stk : List Value) (w : World (Host X) Memory) :
    (∃ r, (invoke I inv ops stk w).1 = .ok r) ↔ Accepted I inv w.mem (recorded w (invoke I inv ops stk w).2) := by
  have hplays := inv.callback.scope_plays I inv.converters_nodup ops (stk.length + 1) (opened (ops :: stk) w)
  rw [invoke, callback_exec I inv.callback_counted]
  rcases hout : (inv.callback.scope I (stk.length + 1) ops).exec (opened (ops :: stk) w) with ⟨e | r, w'⟩ <;>
    rw [hout] at hplays <;> obtain ⟨ev, htr, hok, herror⟩ := hplays.refuses
  · have hrec : recorded w (finished (ops :: stk) (.error e, w')).2 = .opened (ops :: stk) :: ev :=
      recorded_eq (by simp [finished, htr, opened])
    rw [Accepted, hrec, Reader.refuses_other _ _ rfl rfl]
    refine ⟨?_, fun hnot => absurd (herror e rfl) hnot⟩
    rintro ⟨r, hr⟩
    cases hr
  · have hrec : recorded w (finished (ops :: stk) (.ok r, w')).2 =
        .opened (ops :: stk) :: (ev ++ [.closed (ops :: stk)]) :=
      recorded_eq (by simp [finished, htr, opened])
    rw [Accepted, hrec, Reader.refuses_other _ _ rfl rfl, Reader.refuses_append,
      Reader.refuses_other _ _ rfl rfl, Reader.Refuses, or_false]
    exact ⟨fun _ => hok r rfl, fun _ => ⟨_, rfl⟩⟩

/-- A callback that returns hands its state back as it got it. -/
theorem invoke_closed {inv : Invocation} {ops : Value} {stk : List Value} {w : World (Host X) Memory}
    {r : Returned × List Value} (h : (invoke I inv ops stk w).1 = .ok r) :
    r.2 = ops :: stk ∧ .closed (ops :: stk) ∈ recorded w (invoke I inv ops stk w).2 := by
  have hplays := inv.callback.scope_plays I inv.converters_nodup ops (stk.length + 1) (opened (ops :: stk) w)
  rw [invoke, callback_exec I inv.callback_counted] at h ⊢
  rcases hout : (inv.callback.scope I (stk.length + 1) ops).exec (opened (ops :: stk) w) with ⟨e | a, w'⟩ <;>
    rw [hout] at h hplays <;> obtain ⟨ev, htr, -, -⟩ := hplays.refuses
  · cases h
  · cases h
    refine ⟨rfl, ?_⟩
    have hrec : recorded w (finished (ops :: stk) (.ok a, w')).2 =
        .opened (ops :: stk) :: (ev ++ [.closed (ops :: stk)]) :=
      recorded_eq (by simp [finished, htr, opened])
    simp [hrec]

theorem returns_iff (inv : Invocation) (ops : Value) (stk : List Value) (w : World (Host X) Memory) :
    Returns ops stk w (invoke I inv ops stk w) ↔
      Accepted I inv w.mem (recorded w (invoke I inv ops stk w).2) := by
  rw [← invoke_ok_iff]
  constructor
  · rintro ⟨r, hr, -⟩
    exact ⟨_, hr⟩
  · rintro ⟨⟨r, stk'⟩, hr⟩
    obtain ⟨rfl, hclosed⟩ := invoke_closed I hr
    exact ⟨r, hr, hclosed⟩

/-- A state with the module loaded, whose only table has the given fields. -/
def loaded (fields : List (String × Value)) (m : Memory) : World (Host Unit) Memory :=
  .single (fun k => ((fields.map fun field => (bytes field.1, field.2)).lookup k).getD .nil)
    ⟨fun _ => none, true, [], ()⟩ m

/-- A handler for `getattr` that returns a table whose size is a text. -/
theorem text_size_escapes :
    ¬ Returns (.table 0) [] (loaded [("getattr", .function 1), ("st_size", .string (bytes "big"))] .zeroed)
      (invoke (.constant (.ok (.table 0))) (.getattr (some (bytes "/"))) (.table 0) []
        (loaded [("getattr", .function 1), ("st_size", .string (bytes "big"))] .zeroed)) := by
  have herr : (invoke (.constant (.ok (.table 0))) (.getattr (some (bytes "/"))) (.table 0) []
      (loaded [("getattr", .function 1), ("st_size", .string (bytes "big"))] .zeroed)).1 =
      .error (.string (bytes "field \"st_size\" not an integer")) := by
    decide +kernel
  rintro ⟨r, hr, -⟩
  rw [herr] at hr
  cases hr

/-! ## Buffers -/

/-- The size of the buffer that libfuse wants filled. -/
def Invocation.size? : Invocation → Option CInt.size_t.Val
  | .readlink _ size | .read _ size _ | .getxattr _ _ size | .listxattr _ size => some size
  | _ => none

/-- libfuse gives `readlink` room for the NUL. -/
def Invocation.Roomy : Invocation → Prop
  | .readlink _ size => 1 ≤ size.val
  | _ => True

/-- What the status tells libfuse about the buffer is true. -/
def Reported (s : Bytes) (r : CInt.int.Val) (buffer : Nat → UInt8) : Invocation → Prop
  | .readlink _ size => r.val = 0 → Terminated buffer (s.take (size.val - 1).toNat)
  | .read _ size _ | .getxattr _ _ size | .listxattr _ size =>
      0 ≤ r.val → r.val ≤ size.val ∧ Filled buffer s r.val
  | _ => True

/-- The length of the string, as an `int`, is not beyond the size that `read` was given. -/
def Fits (s : Bytes) : Invocation → Prop
  | .read _ size _ => (CInt.int.wrap s.length).val ≤ size.val
  | _ => True

theorem invoke_string {inv : Invocation} {ops : Value} {stk : List Value} {w : World (Host X) Memory}
    {o : Other} {size : CInt.size_t.Val} (ho : inv.callback.finish = .reply o) (hsize : o.size? = some size)
    {f : Value} {args : List Value} {s : Bytes}
    (hcall : .pcall f args (.ok (.string s)) ∈ recorded w (invoke I inv ops stk w).2) :
    (invoke I inv ops stk w).2.mem.buffer = (o.fill s w.mem.buffer).2 ∧
      ∀ r stk', (invoke I inv ops stk w).1 = .ok (.int r, stk') → r = (o.fill s w.mem.buffer).1 := by
  have hmem : .pcall f args (.ok (.string s)) ∈ pcalls (recorded w (invoke I inv ops stk w).2) :=
    List.mem_filter.mpr ⟨hcall, rfl⟩
  cases callback_course I inv.callback_counted inv.converters_nodup ops stk w with
  | raised _ _ hcalls _ | missing _ _ _ _ _ hcalls _ =>
      rw [invoke, hcalls] at hmem
      cases hmem
  | called _ _ _ _ _ hcalls hw₀ hanswer hout hbuffer =>
      rw [invoke, hcalls, List.mem_singleton, Event.pcall.injEq] at hmem
      rw [← hmem.2.2, ho, Finish.answer, Prog.exec_bind_of_ok (o.answer_string I hsize s _), hw₀] at hanswer
      cases hanswer
      refine ⟨hbuffer, fun r stk' hr => ?_⟩
      obtain ⟨returned, hreturned, heq⟩ := hout _ hr
      rw [Prod.mk.injEq] at heq
      rw [← heq.1] at hreturned
      exact (Returned.int.inj (Except.ok.inj hreturned)).symm

theorem reported_iff {inv : Invocation} {size : CInt.size_t.Val} (hsize : inv.size? = some size)
    (hroomy : inv.Roomy) {ops : Value} {stk : List Value} {w : World (Host X) Memory} {f : Value}
    {args : List Value} {s : Bytes}
    (hcall : .pcall f args (.ok (.string s)) ∈ recorded w (invoke I inv ops stk w).2) :
    (∀ i : Nat, size.val ≤ i → (invoke I inv ops stk w).2.mem.buffer i = w.mem.buffer i) ∧
      ∀ r stk', (invoke I inv ops stk w).1 = .ok (.int r, stk') →
        (Reported s r (invoke I inv ops stk w).2.mem.buffer inv ↔ Fits s inv) := by
  cases inv with
  | readlink path n =>
      cases hsize
      obtain ⟨hbuffer, hout⟩ := invoke_string I rfl rfl hcall
      refine ⟨fun i hi => ?_, fun r stk' _ => iff_of_true (fun _ => ?_) trivial⟩
      · rw [hbuffer]
        exact Other.fill_outside rfl (fun _ h => by cases h; exact hroomy) s _ hi
      · rw [hbuffer]
        exact readlink_terminated hroomy s _
  | read path n offset =>
      cases hsize
      obtain ⟨hbuffer, hout⟩ := invoke_string I rfl rfl hcall
      refine ⟨fun i hi => ?_, fun r stk' hr => ?_⟩
      · rw [hbuffer]
        exact Other.fill_outside rfl (fun _ h => by cases h) s _ hi
      · obtain rfl := hout r stk' hr
        have hn := size.nonneg rfl
        simp only [Reported, Fits, hbuffer]
        constructor
        · intro h
          by_cases hneg : 0 ≤ (CInt.int.wrap s.length).val
          · exact (h hneg).1
          · omega
        · exact fun h _ => ⟨h, read_filled size s _ h⟩
  | getxattr path name n | listxattr path n =>
      cases hsize
      obtain ⟨hbuffer, hout⟩ := invoke_string I rfl rfl hcall
      refine ⟨fun i hi => ?_, fun r stk' hr => iff_of_true (fun hr' => ?_) trivial⟩
      · rw [hbuffer]
        exact Other.fill_outside rfl (fun _ h => by cases h) s _ hi
      · obtain rfl := hout r stk' hr
        rw [hbuffer]
        rcases Nat.lt_or_ge size.val.toNat s.length with hlt | hle
        · rw [xattr_refused hlt] at hr'
          exact absurd hr' (by decide : ¬ 0 ≤ ERANGE.val)
        · have hstatus := (xattr_filled hle w.mem.buffer).1
          have hfilled := (xattr_filled hle w.mem.buffer).2
          have hn := size.nonneg rfl
          have hwrap := wrap_length_le s
          rw [hstatus]
          exact ⟨by omega, hfilled⟩
  | _ => cases hsize

def read_text (n : Int) (text : String) : Except Value (Returned × List Value) × World (Host Unit) Memory :=
  invoke (.constant (.ok (.string (bytes text)))) (.read (some (bytes "/")) (CInt.size_t.wrap n) (CInt.off_t.wrap 0))
    (.table 0) [] (loaded [("read", .function 1)] .zeroed)

theorem reported_iff_two :
    (∀ i : Nat, 2 ≤ i → (read_text 2 "ab").2.mem.buffer i = 0) ∧
      Reported (bytes "ab") (CInt.int.wrap 2) (read_text 2 "ab").2.mem.buffer
        (.read (some (bytes "/")) (CInt.size_t.wrap 2) (CInt.off_t.wrap 0)) := by
  have hcall : .pcall (.function 1) [.table 0, .string (bytes "/"), .integer (CInt.int64_t.wrap 2),
      .integer (CInt.int64_t.wrap 0), .table 1] (.ok (.string (bytes "ab"))) ∈
      recorded (loaded [("read", .function 1)] .zeroed) (read_text 2 "ab").2 := by
    decide +kernel
  have hout : (read_text 2 "ab").1 = .ok (.int (CInt.int.wrap 2), [.table 0]) := by decide +kernel
  unfold read_text at hcall hout ⊢
  have hfit : Fits (bytes "ab") (.read (some (bytes "/")) (CInt.size_t.wrap 2) (CInt.off_t.wrap 0)) := by
    change (CInt.int.wrap _).val ≤ (CInt.size_t.wrap 2).val
    decide +kernel
  obtain ⟨houtside, hiff⟩ := reported_iff (.constant (.ok (.string (bytes "ab")))) (by rfl) (by trivial) hcall
  refine ⟨fun i hi => houtside i ?_, (hiff _ _ hout).mpr hfit⟩
  have hsize : (CInt.size_t.wrap 2).val = 2 := by decide +kernel
  rw [hsize]
  exact_mod_cast hi

theorem read_reports_more :
    (read_text 1 "ab").1 = .ok (.int (CInt.int.wrap 2), [.table 0]) ∧
      ¬ Reported (bytes "ab") (CInt.int.wrap 2) (read_text 1 "ab").2.mem.buffer
        (.read (some (bytes "/")) (CInt.size_t.wrap 1) (CInt.off_t.wrap 0)) := by
  refine ⟨by decide +kernel, fun h => ?_⟩
  exact absurd (h (by decide)).1 (by decide)

/-! ## Installation and dispatch -/

/-- The constructor looks every considered operation up once, and installs its callback exactly when the
answer is not nil. -/
def Installs (ops : Value) (stk : List Value) (w : World (Host X) Memory) :
    Except Value (Slots × List Value) × World (Host X) Memory → Prop
  | (.ok (slots, stk'), w') => stk' = ops :: stk ∧ ∃ answers : Operation → Value,
      recorded w w' =
        .opened (ops :: stk) :: (considered.map (considered_event ops answers) ++ [.closed (ops :: stk)]) ∧
      ∀ n ∈ considered, slots n = if answers n = .nil then none else some n
  | (.error e, w') => ∃ n ∈ considered, .read ops (.string (bytes n.name)) (.error e) ∈ recorded w w'

theorem operations_installs (ops : Value) (stk : List Value) (w : World (Host X) Memory) :
    Installs ops stk w (((operations I).run (ops :: stk)).exec w) := by
  rw [operations_run, Prog.exec_map, Prog.exec_bind_of_ok (exec_record _ _)]
  rcases considering_exec I (by decide : considered.Nodup) ops unconditional
    { w with trace := w.trace ++ [.opened (ops :: stk)] } with
    ⟨answers, slots, h, hexec, hslots⟩ | ⟨e, w', ev, n, hexec, hn, htr, he⟩
  · rw [Prog.exec_bind_of_ok hexec, Prog.exec_bind_of_ok (exec_record _ _)]
    refine ⟨rfl, answers, recorded_eq (by simp), fun n hn => ?_⟩
    have hnone : unconditional n = none := by
      revert n
      decide
    rw [hslots n, hnone]
    by_cases hv : answers n = .nil <;> simp [hn, hv]
  · rw [Prog.exec_bind_of_error hexec]
    refine ⟨n, hn, ?_⟩
    have hrec : recorded w w' = .opened (ops :: stk) :: ev := recorded_eq (by simp [htr])
    exact hrec ▸ List.mem_cons_of_mem _ he

/-- What a field of the operations value holds when the handler is looked up. -/
def Invocation.field (inv : Invocation) (name : String) (ops : Value) (w : World (Host X) Memory) :
    Except Value Value :=
  (I.lookup ops (.string (bytes name)) (tabled w.mem inv.callback.converters w.heap)).1

/-- The one protected call is of the field named after the operation, with the operations value and the
parameters, a buffer and its size byte by byte; or that field is nil, there is no call, and the status is `-ENOSYS`. -/
inductive Dispatches (inv : Invocation) (ops : Value) (w : World (Host X) Memory)
    (out : Except Value (Returned × List Value)) (w' : World (Host X) Memory) : Prop
  | called {f vs heap} (hfield : inv.field I inv.operation.name ops w = .ok f) (hf : f ≠ .nil)
      (hcalls : pcalls (recorded w w') =
        [.pcall f (ops :: vs) (I.call f (ops :: vs) (heap.share (ops :: vs))).1])
      (hargs : List.Forall₂ (Arg.Passed w.mem heap) (inv.parameters.flatMap Parameter.args) vs)
      (hstrings : ∀ buffer size, .string buffer size ∈ inv.parameters → ∃ s, .string s ∈ vs ∧ Reads s buffer size)
  | missing {stk} (hfield : inv.field I inv.operation.name ops w = .ok .nil)
      (hcalls : pcalls (recorded w w') = []) (hout : out = .ok (.int ENOSYS, stk))

/-- The look-up of the field raises nothing, `lock` and `flock` are the same where the invocation is one
of `flock`, and without a handler the handle of the file info is below 2⁶³. -/
def Dispatchable (inv : Invocation) (ops : Value) (w : World (Host X) Memory) : Prop :=
  ∃ f, inv.field I inv.operation.name ops w = .ok f ∧
    (inv.operation = .flock → inv.field I "lock" ops w = .ok f) ∧
    (f = .nil → .file_info ∈ inv.callback.converters → (w.mem.file_info .fh).val < 2 ^ 63)

theorem Invocation.handler_eq (inv : Invocation) (ops : Value) (w : World (Host X) Memory) :
    inv.callback.handler I ops (tabled w.mem inv.callback.converters w.heap) =
      inv.field I (if inv.operation = .flock then "lock" else inv.operation.name) ops w := by
  rw [field, Callback.handler, inv.name_eq]

theorem dispatchable_iff (inv : Invocation) (ops : Value) (w : World (Host X) Memory) :
    Dispatchable I inv ops w ↔ ∃ f, inv.field I inv.operation.name ops w = .ok f ∧
      inv.callback.handler I ops (tabled w.mem inv.callback.converters w.heap) = .ok f ∧
      (f = .nil → ∀ c ∈ inv.callback.converters, c.Narrow w.mem) := by
  have hnarrow : (∀ c ∈ inv.callback.converters, c.Narrow w.mem) ↔
      (.file_info ∈ inv.callback.converters → (w.mem.file_info .fh).val < 2 ^ 63) := by
    simp only [Converter.narrow_iff]
    exact ⟨fun h hc => h _ hc rfl, fun h c hc hfile => h (hfile ▸ hc)⟩
  rw [inv.handler_eq]
  simp only [hnarrow]
  by_cases hflock : inv.operation = .flock
  · simp [Dispatchable, hflock]
  · simp only [Dispatchable, hflock, false_implies, true_and, if_false]
    exact exists_congr fun f => ⟨fun ⟨h, h'⟩ => ⟨h, h, h'⟩, fun ⟨h, _, h'⟩ => ⟨h, h'⟩⟩

theorem invoke_dispatches_iff {inv : Invocation} (hconsidered : inv.operation ∈ considered) (ops : Value)
    (stk : List Value) (w : World (Host X) Memory) :
    Dispatches I inv ops w (invoke I inv ops stk w).1 (invoke I inv ops stk w).2 ↔ Dispatchable I inv ops w := by
  rw [dispatchable_iff]
  have huntouched : ∀ {tables : Tables} {w₁ : World (Host X) Memory},
      tables.map Prod.fst = inv.callback.converters → Encodes w.mem w₁.heap tables → w₁.mem = w.mem →
      ((∃ u, ((destruct_all I tables (stk.length + 1)).exec w₁).1 = .ok u) ↔
        ∀ c ∈ inv.callback.converters, c.Narrow w.mem) := by
    intro tables w₁ hfst hencodes hmem
    rw [← hfst]
    exact (destruct_all_untouched I tables _ (hfst ▸ inv.converters_nodup) hencodes fun c _ => by rw [hmem]).1
  rw [invoke]
  cases callback_course I inv.callback_counted inv.converters_nodup ops stk w with
  | raised h hout hcalls hbuffer =>
      refine iff_of_false ?_ ?_
      · rintro (⟨-, -, hcalls', -⟩ | ⟨-, -, hout'⟩)
        · rw [hcalls] at hcalls'
          cases hcalls'
        · rw [hout] at hout'
          cases hout'
      · rintro ⟨f, -, hf, -⟩
        rw [h] at hf
        cases hf
  | missing h hfst hencodes hmem hout hcalls hbuffer =>
      rw [inv.missing_eq hconsidered] at hout
      constructor
      · rintro (⟨-, -, hcalls', -⟩ | ⟨hfield, -, hout'⟩)
        · rw [hcalls] at hcalls'
          cases hcalls'
        · refine ⟨.nil, hfield, h, fun _ => (huntouched hfst hencodes hmem).mp ?_⟩
          rw [hout] at hout'
          cases hd : ((destruct_all I _ (stk.length + 1)).exec _).1 with
          | error e =>
              rw [hd] at hout'
              cases hout'
          | ok u => exact ⟨u, rfl⟩
      · rintro ⟨f, hfield, hf, hnarrow⟩
        rw [h] at hf
        cases hf
        obtain ⟨u, hu⟩ := (huntouched hfst hencodes hmem).mpr (hnarrow rfl)
        exact .missing hfield hcalls (by rw [hout, hu]; rfl)
  | called h hf hfst hencodes hargs hcalls hmem hanswer hout hbuffer =>
      constructor
      · rintro (⟨hfield, -, hcalls', -⟩ | ⟨-, hcalls', -⟩)
        · rw [hcalls, List.cons.injEq, Event.pcall.injEq] at hcalls'
          obtain ⟨⟨rfl, -, -⟩, -⟩ := hcalls'
          exact ⟨_, hfield, h, fun hnil => absurd hnil hf⟩
        · rw [hcalls] at hcalls'
          cases hcalls'
      · rintro ⟨f, hfield, hf', -⟩
        rw [h] at hf'
        cases hf'
        have hpassed := inv.passed hfst hencodes hargs
        exact .called hfield hf hcalls hpassed fun _ _ => inv.passed_string hpassed

/-- Installation and dispatch, on a state each. -/
def Agree (inv : Invocation) (ops ops' : Value) (stk stk' : List Value) (w w' : World (Host X) Memory) : Prop :=
  Installs ops stk w (((operations I).run (ops :: stk)).exec w) ∧
    (inv.operation ∈ considered →
      Dispatches I inv ops' w' (invoke I inv ops' stk' w').1 (invoke I inv ops' stk' w').2)

theorem agree_iff (inv : Invocation) (ops ops' : Value) (stk stk' : List Value) (w w' : World (Host X) Memory) :
    Agree I inv ops ops' stk stk' w w' ↔ (inv.operation ∈ considered → Dispatchable I inv ops' w') := by
  refine ⟨fun h hin => (invoke_dispatches_iff I hin ops' stk' w').mp (h.2 hin), fun h => ?_⟩
  exact ⟨operations_installs I ops stk w, fun hin => (invoke_dispatches_iff I hin ops' stk' w').mpr (h hin)⟩

def two_locks : World (Host Unit) Memory := loaded [("lock", .function 1), ("flock", .function 2)] .zeroed

def lock_exclusive : Invocation := .flock (some (bytes "/")) (CInt.int.wrap 2)

/-- `flock` calls the handler of `lock`. -/
theorem flock_calls_lock :
    pcalls (recorded two_locks (invoke (.constant (.ok .nil)) lock_exclusive (.table 0) [] two_locks).2) =
        [.pcall (.function 1) [.table 0, .string (bytes "/"), .table 1, .integer (CInt.int64_t.wrap 2)] (.ok .nil)] ∧
      ¬ Agree (.constant (.ok .nil)) lock_exclusive (.table 0) (.table 0) [] [] two_locks two_locks := by
  have hcalls : pcalls (recorded two_locks
      (invoke (.constant (.ok .nil)) lock_exclusive (.table 0) [] two_locks).2) =
      [.pcall (.function 1) [.table 0, .string (bytes "/"), .table 1, .integer (CInt.int64_t.wrap 2)] (.ok .nil)] := by
    decide +kernel
  have hflock : lock_exclusive.field (.constant (.ok .nil)) "flock" (.table 0) two_locks = .ok (.function 2) := by
    decide +kernel
  refine ⟨hcalls, fun hagree => ?_⟩
  rcases hagree.2 (by decide) with ⟨hfield, -, hcalls', -⟩ | ⟨-, hcalls', -⟩
  · rw [hcalls, List.cons.injEq, Event.pcall.injEq] at hcalls'
    obtain ⟨⟨rfl, -, -⟩, -⟩ := hcalls'
    have hne := hflock.symm.trans hfield
    simp at hne
  · rw [hcalls] at hcalls'
    cases hcalls'

end DromozoaFuse.Operations
