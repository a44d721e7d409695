import DromozoaFuse.Operations.Lemmas.Outcomes
import DromozoaFuse.Operations.Theorems

/-!
# Main results about statuses

One law for the callbacks that return an `int`, and the two ways to ask for an extended attribute.
-/

namespace DromozoaFuse.Operations

open Base Lua DromozoaFuse.Bind DromozoaFuse.Convert Fill

variable {X : Type} (I : Interp (Host X))

/-! ## The result law -/

/-- The status for a handler that returns nil: the size for `write`, 0 for the others. -/
def Invocation.default : Invocation → Int
  | .write _ _ size _ => size.val
  | _ => 0

/-- What the operations that return an `int` expect of a handler, by their names: a table of attributes or of
statistics, a string, or else nil. -/
def Invocation.expected (inv : Invocation) : Option Other :=
  match inv with
  | .init | .destroy => none
  | .getattr _ | .fgetattr _ => some .stat
  | .statfs _ => some .statvfs
  | .readlink _ size => some (.readlink size)
  | .read _ size _ => some (.read size)
  | .getxattr _ _ size | .listxattr _ size => some (.xattr size)
  | _ => some (.nil (CInt.int.wrap inv.default))

theorem Invocation.expected_iff {inv : Invocation} {o : Other} :
    inv.expected = some o ↔ inv.callback.finish = .reply o := by
  constructor
  · intro h
    cases inv <;> cases h <;> rfl
  · intro h
    cases inv <;> cases h <;> rfl

theorem Invocation.default_eq {inv : Invocation} {d : CInt.int.Val} (h : inv.expected = some (.nil d)) :
    d = CInt.int.wrap inv.default := by
  cases inv <;> cases h <;> rfl

theorem invoke_result {inv : Invocation} {o : Other} (ho : inv.callback.finish = .reply o) {ops : Value}
    {stk : List Value} {w : World (Host X) Memory} {f : Value} {args : List Value} {reply : Except Value Value}
    (hcall : .pcall f args reply ∈ recorded w (invoke I inv ops stk w).2) {r : Returned × List Value}
    (hr : (invoke I inv ops stk w).1 = .ok r) : r = (.int (o.result I reply), ops :: stk) := by
  have hmem : .pcall f args reply ∈ pcalls (recorded w (invoke I inv ops stk w).2) :=
    List.mem_filter.mpr ⟨hcall, rfl⟩
  cases callback_course I inv.callback_counted inv.converters_nodup ops stk w with
  | raised _ _ hcalls _ | missing _ _ _ _ _ hcalls _ =>
      rw [invoke, hcalls] at hmem
      cases hmem
  | called _ _ _ _ _ hcalls _ hanswer hout _ =>
      rw [invoke, hcalls, List.mem_singleton, Event.pcall.injEq] at hmem
      obtain ⟨returned, hreturned, rfl⟩ := hout _ hr
      rw [← hmem.2.2, ho, hreturned, Finish.answer] at hanswer
      obtain ⟨i, w', hi, hpure⟩ := Prog.exec_bind_ok hanswer
      cases hpure
      rw [o.answer_result I hi]

theorem uniform_law_iff {inv : Invocation} {o : Other} (ho : inv.expected = some o)
    (hnum : ∀ n, (I.number2str n).length < 2 ^ 31) {ops : Value} {stk : List Value} {w : World (Host X) Memory}
    {f : Value} {args : List Value} {reply : Except Value Value}
    (hcall : .pcall f args reply ∈ recorded w (invoke I inv ops stk w).2) :
    (∃ r, (invoke I inv ops stk w).1 = .ok (.int r, ops :: stk) ∧ Lawful o inv.default reply r) ↔
      Accepted I inv w.mem (recorded w (invoke I inv ops stk w).2) ∧ Conforming I o inv.default reply := by
  have hlaw := lawful_iff I hnum (o := o) (fun d hd => inv.default_eq (hd ▸ ho)) reply
  have hfinish := Invocation.expected_iff.mp ho
  rw [← invoke_ok_iff, ← hlaw]
  constructor
  · rintro ⟨r, hr, hlawful⟩
    have heq := invoke_result I hfinish hcall hr
    cases heq
    exact ⟨⟨_, hr⟩, hlawful⟩
  · rintro ⟨⟨r, hr⟩, hlawful⟩
    have heq := invoke_result I hfinish hcall hr
    subst heq
    exact ⟨_, hr, hlawful⟩

def unlink_returning (n : Int) : Except Value (Returned × List Value) × World (Host Unit) Memory :=
  invoke (.constant (.ok (.integer (CInt.int64_t.wrap n)))) (.unlink (some (bytes "/"))) (.table 0) []
    (loaded [("unlink", .function 1)] .zeroed)

theorem uniform_law_iff_two : ∃ r, (unlink_returning (-2)).1 = .ok (.int r, [.table 0]) ∧
    Lawful (.nil (CInt.int.wrap 0)) 0 (.ok (.integer (CInt.int64_t.wrap (-2)))) r := by
  have hcall : .pcall (.function 1) [.table 0, .string (bytes "/")] (.ok (.integer (CInt.int64_t.wrap (-2)))) ∈
      recorded (loaded [("unlink", .function 1)] .zeroed) (unlink_returning (-2)).2 := by decide +kernel
  have hok : (unlink_returning (-2)).1 = .ok (.int (CInt.int.wrap (-2)), [.table 0]) := by decide +kernel
  unfold unlink_returning at hcall hok ⊢
  have hnarrow : Narrow (CInt.int64_t.wrap (-2)).val := Or.inl (by decide)
  exact (uniform_law_iff (.constant (.ok (.integer (CInt.int64_t.wrap (-2))))) (by rfl)
    (by exact fun _ => Nat.two_pow_pos 31) hcall).mpr
    ⟨(invoke_ok_iff _ _ _ _ _).mp ⟨_, hok⟩, hnarrow⟩

/-- A result of 2³² is a success for libfuse. -/
theorem large_result_succeeds : (unlink_returning (2 ^ 32)).1 = .ok (.int (CInt.int.wrap 0), [.table 0]) ∧
    ¬ ∃ r, (unlink_returning (2 ^ 32)).1 = .ok (.int r, [.table 0]) ∧
      Lawful (.nil (CInt.int.wrap 0)) 0 (.ok (.integer (CInt.int64_t.wrap (2 ^ 32)))) r := by
  have hok : (unlink_returning (2 ^ 32)).1 = .ok (.int (CInt.int.wrap 0), [.table 0]) := by decide +kernel
  refine ⟨hok, ?_⟩
  rintro ⟨r, hr, hlawful⟩
  rw [hok] at hr
  cases hr
  have hstands : StandsFor (CInt.int64_t.wrap (2 ^ 32)).val (CInt.int.wrap 0) := hlawful
  exact absurd (hstands.2 (by decide)) (by decide)

/-! ## Extended attributes -/

/-- The callbacks that fetch an extended attribute, or the names of all of them. -/
inductive Query
  | getxattr (path name : Path)
  | listxattr (path : Path)

def Query.invocation : Query → CInt.size_t.Val → Invocation
  | .getxattr path name, size => .getxattr path name size
  | .listxattr path, size => .listxattr path size

def Query.name : Query → String
  | .getxattr .. => "getxattr"
  | .listxattr _ => "listxattr"

/-- The place of the size among the arguments of the handler. -/
def Query.position : Query → Nat
  | .getxattr .. => 3
  | .listxattr _ => 2

/-- The handler returns the length of `v` when it is given the size 0 and `v` otherwise. -/
def Serves (q : Query) (f : Value) (v : Bytes) : Prop := ∀ args heap, (I.call f args heap).1 =
  if args[q.position]? = some (.integer (CInt.int64_t.wrap 0)) then .ok (.integer (CInt.int64_t.wrap v.length))
  else .ok (.string v)

theorem wrap_eq_zero_iff (size : CInt.size_t.Val) :
    Value.integer (CInt.int64_t.wrap size.val) = .integer (CInt.int64_t.wrap 0) ↔ size.val = 0 := by
  have hsize := size.mem
  simp only [CInt.Mem, CInt.min, CInt.max, CInt.card, CInt.unsigned_long] at hsize
  simp only [Value.integer, Value.number.injEq, Number.integer.injEq, CInt.Val.ext_iff, CInt.wrap, CInt.min,
    CInt.card, CInt.long]
  norm_num at hsize ⊢
  omega

theorem Query.reply {q : Query} {f : Value} {v : Bytes} (h : Serves I q f v) {size : CInt.size_t.Val}
    {ops : Value} {tables : Tables} {heap : Heap (Host X)} {vs : List Value}
    (hargs : List.Forall₂ (Arg.Denotes tables heap) (q.invocation size).callback.args vs) (heap' : Heap (Host X)) :
    (I.call f (ops :: vs) heap').1 =
      if size.val = 0 then .ok (.integer (CInt.int64_t.wrap v.length)) else .ok (.string v) := by
  have hsize : (ops :: vs)[q.position]? = some (.integer (CInt.int64_t.wrap size.val)) := by
    cases q with
    | getxattr path name =>
        simp only [invocation, Invocation.callback, Callback.getxattr, List.forall₂_cons_left_iff] at hargs
        obtain ⟨_, _, -, ⟨_, _, -, ⟨_, _, hv, -, rfl⟩, rfl⟩, rfl⟩ := hargs
        exact congrArg some hv
    | listxattr path =>
        simp only [invocation, Invocation.callback, Callback.listxattr, List.forall₂_cons_left_iff] at hargs
        obtain ⟨_, _, -, ⟨_, _, hv, -, rfl⟩, rfl⟩ := hargs
        exact congrArg some hv
  rw [h, hsize]
  simp only [Option.some.injEq, wrap_eq_zero_iff]

/-- A query whose handler serves an attribute: its status and the buffer. -/
theorem Query.invoke_eq {q : Query} {f : Value} {v : Bytes} (h : Serves I q f v) {ops : Value} (stk : List Value)
    {w : World (Host X) Memory} (hf : (I.lookup ops (.string (bytes q.name)) w.heap).1 = .ok f) (hnil : f ≠ .nil)
    (size : CInt.size_t.Val) :
    ((invoke I (q.invocation size) ops stk w).1, (invoke I (q.invocation size) ops stk w).2.mem.buffer) =
      if size.val = 0 then (.ok (.int (CInt.int.wrap (CInt.int64_t.wrap v.length).val), ops :: stk), w.mem.buffer)
      else (.ok (.int ((Other.xattr size).fill v w.mem.buffer).1, ops :: stk),
        ((Other.xattr size).fill v w.mem.buffer).2) := by
  have hfinish : (q.invocation size).callback.finish = .reply (.xattr size) := by cases q <;> rfl
  have hscope : ∀ height, (q.invocation size).callback.scope I height ops =
      (q.invocation size).callback.inner I ops [] := by
    intro height
    cases q <;> rfl
  have hhandler : ∀ heap, (q.invocation size).callback.handler I ops heap =
      (I.lookup ops (.string (bytes q.name)) heap).1 := by
    intro heap
    cases q <;> rfl
  have hends := (q.invocation size).callback.inner_ends I ops [] (opened (ops :: stk) w)
  rw [invoke, callback_exec I (q.invocation size).callback_counted, hscope]
  generalize ((q.invocation size).callback.inner I ops []).exec (opened (ops :: stk) w) = result at hends ⊢
  cases hends with
  | raised h' =>
      rw [hhandler] at h'
      exact absurd (hf.symm.trans h') (by simp)
  | missing h' =>
      rw [hhandler] at h'
      exact absurd (Except.ok.inj (hf.symm.trans h')) hnil
  | @called g vs hs heap h' _ _ hargs _ _ a w₁ hanswer =>
      rw [hhandler] at h'
      obtain rfl : f = g := Except.ok.inj (hf.symm.trans h')
      rw [reply_of, Query.reply I h hargs, hfinish, Finish.answer] at hanswer
      split at hanswer
      · rename_i hzero
        rw [if_pos hzero]
        cases hanswer
        rfl
      · rename_i hpos
        rw [if_neg hpos]
        rw [Prog.exec_bind_of_ok ((Other.xattr size).answer_string I rfl v _)] at hanswer
        cases hanswer
        rfl

def contents (buffer : Nat → UInt8) (n : Nat) : Bytes := (List.range n).map buffer

theorem probe_and_fetch {q : Query} {f : Value} {v : Bytes} (hv : v.length < 2 ^ 31) (h : Serves I q f v)
    {ops : Value} {stk : List Value} {w : World (Host X) Memory}
    (hf : (I.lookup ops (.string (bytes q.name)) w.heap).1 = .ok f) (hnil : f ≠ .nil) (size : CInt.size_t.Val) :
    ∃ r, (invoke I (q.invocation size) ops stk w).1 = .ok (.int r, ops :: stk) ∧
      (size.val = 0 → r.val = v.length ∧ (invoke I (q.invocation size) ops stk w).2.mem.buffer = w.mem.buffer) ∧
      (0 < size.val → size.val < v.length →
        r = ERANGE ∧ (invoke I (q.invocation size) ops stk w).2.mem.buffer = w.mem.buffer) ∧
      (0 < size.val → v.length ≤ size.val → r.val = v.length ∧
        (∀ i : Nat, i < size.val → (invoke I (q.invocation size) ops stk w).2.mem.buffer i = v.getD i 0) ∧
        ∀ i : Nat, size.val ≤ i → (invoke I (q.invocation size) ops stk w).2.mem.buffer i = w.mem.buffer i) ∧
      (v ≠ [] → size.val = v.length →
        contents (invoke I (q.invocation size) ops stk w).2.mem.buffer size.val.toNat = v) := by
  have hsize := size.nonneg rfl
  have hint : CInt.int.Mem v.length := by
    simp only [CInt.Mem, CInt.min, CInt.max, CInt.card, CInt.int]
    norm_num
    omega
  have hint' : CInt.int64_t.Mem v.length := hint.widen (by decide)
  have hlength : (CInt.int.wrap v.length).val = v.length := CInt.wrap_of_mem hint
  have heq := Query.invoke_eq I h stk hf hnil size
  by_cases hzero : size.val = 0
  · rw [if_pos hzero, CInt.wrap_of_mem hint', Prod.mk.injEq] at heq
    refine ⟨_, heq.1, fun _ => ⟨hlength, heq.2⟩, fun hpos => by omega, fun hpos => by omega, fun hne heq' => ?_⟩
    have hempty : v.length = 0 := by omega
    exact absurd (List.eq_nil_of_length_eq_zero hempty) hne
  · rw [if_neg hzero, Prod.mk.injEq] at heq
    by_cases hlt : size.val.toNat < v.length
    · rw [xattr_refused hlt] at heq
      exact ⟨_, heq.1, fun hz => absurd hz hzero, fun _ _ => ⟨rfl, heq.2⟩, fun _ hle => by omega,
        fun _ heq' => by omega⟩
    · have hstatus := (xattr_filled (Nat.le_of_not_lt hlt) w.mem.buffer).1
      have hbuffer : ((Other.xattr size).fill v w.mem.buffer).2 =
          memcpy (memset w.mem.buffer 0 size.val.toNat) v v.length := by
        rw [Other.fill, if_neg hlt]
      have hinside : ∀ i : Nat, i < size.val →
          ((Other.xattr size).fill v w.mem.buffer).2 i = v.getD i 0 := by
        intro i hi
        rw [hbuffer]
        by_cases hiv : i < v.length
        · rw [memcpy, if_pos hiv]
        · rw [memset_memcpy_of_le (Nat.le_of_not_lt hiv), if_pos (by omega),
            List.getD_eq_getElem?_getD, List.getElem?_eq_none (Nat.le_of_not_lt hiv), Option.getD_none]
      rw [hstatus] at heq
      rw [heq.2]
      refine ⟨_, heq.1, fun hz => absurd hz hzero, fun _ _ => by omega, fun _ _ => ⟨hlength, hinside, ?_⟩, ?_⟩
      · intro i hi
        exact Other.fill_outside rfl (fun _ hn => by cases hn) v _ hi
      · intro _ heq'
        have hn : size.val.toNat = v.length := by omega
        refine List.ext_getElem (by simp [contents, hn]) fun i hi hiv => ?_
        have hval : ((Other.xattr size).fill v w.mem.buffer).2 i = v.getD i 0 := hinside i (by omega)
        simp [contents, hval, hiv]

/-- A handler for `getxattr` that serves the given value. -/
def serving (v : Bytes) : Interp (Host Unit) :=
  { Interp.idle with
    call := fun _ args h =>
      (if args[3]? = some (.integer (CInt.int64_t.wrap 0)) then .ok (.integer (CInt.int64_t.wrap v.length))
        else .ok (.string v), h)
    call_scripted := fun _ _ h => .refl h }

/-- The text of a number is fetched as it is. -/
theorem probe_and_fetch_digits : contents (invoke (serving (bytes "12"))
    (.getxattr (some (bytes "/")) (some (bytes "user.n")) (CInt.size_t.wrap 2)) (.table 0) []
    (loaded [("getxattr", .function 1)] .zeroed)).2.mem.buffer 2 = bytes "12" := by
  have hsize : (CInt.size_t.wrap 2).val = 2 := by decide
  obtain ⟨r, -, -, -, -, hfetch⟩ := @probe_and_fetch _ (serving (bytes "12"))
    (.getxattr (some (bytes "/")) (some (bytes "user.n"))) (.function 1) (bytes "12") (by decide) (fun _ _ => rfl)
    (.table 0) [] (loaded [("getxattr", .function 1)] .zeroed) (by decide +kernel) (by decide) (CInt.size_t.wrap 2)
  have hcontents := hfetch (by decide) (by rw [hsize]; decide)
  rw [hsize] at hcontents
  exact hcontents

end DromozoaFuse.Operations
