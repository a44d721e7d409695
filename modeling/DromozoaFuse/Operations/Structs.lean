import DromozoaFuse.Operations.Lemmas.Structs
import DromozoaFuse.Operations.Theorems

/-!
# Main results about structs

The attributes that handlers return, the times that they are given, and the structs that they change.
-/

namespace DromozoaFuse.Operations

open Base Lua DromozoaFuse.Bind DromozoaFuse.Convert Fill

variable {X : Type} (I : Interp (Host X))

/-! ## Attributes and times -/

/-- The conversion of well-formed attributes succeeds, and every member has its own field. -/
def AttributesExact : Prop :=
  ∀ (M : Type) (p : Ptr M (Struct Convert.stat)) (Q : Heap (Host X) → Prop) (r : Nat) (f : Bytes → Value)
    (time : Stamp → Option (Struct timespec)), WellFormed I Q r f time →
    ∀ (stk : List Value) (index : Int), slot stk index = some (.table r) →
    ∀ w : World (Host X) M, Q w.heap →
      (((convert I .stat p index).run stk).exec w).1 = .ok (true, stk) ∧
        DecodedAs f time (p.get (((convert I .stat p index).run stk).exec w).2.mem)

def Proper (t : Struct timespec) : Prop := 0 ≤ (t .tv_nsec).val ∧ (t .tv_nsec).val ≤ 999999999

/-- The table that a handler gets for a time. -/
def passed_time (t : Struct timespec) : Table := { assign_all .empty (timespec_fields t) with shared := true }

/-- Wherever the table of a time is kept as it was passed, and a handler of `getattr` or `fgetattr`
returns attributes with it as one of the times under one of the keys, libfuse gets the time, and 0. Only the file info
can keep `fgetattr` from returning. -/
def Survives (r : Nat) (t : Struct timespec) : Prop :=
  ∀ (Q : Heap (Host X) → Prop) (r' : Nat) (f : Bytes → Value) (s : Stamp) (inv : Invocation) (ops : Value)
    (stk : List Value) (w : World (Host X) Memory),
    (∀ h, Q h → (h.tables r).fields = (passed_time t).fields ∧ (h.tables r).metatable = (passed_time t).metatable) →
    Answers I Q (.table r') f →
    (∀ k ∈ attributes, f (key (S := Convert.stat) k) = .nil ∨
      ∃ i, f (key (S := Convert.stat) k) = .integer i ∧ (Convert.stat.type k).Mem i.val) →
    (∀ s', s' ≠ s → ∃ t?, Spelt I Q f s' t?) → SpeltBy f s r →
    (inv.operation = .getattr ∨ inv.operation = .fgetattr) → ReturnsTable I Q ops inv.operation.name r' →
    Q w.heap → s.time (invoke I inv ops stk w).2.mem.stat = t ∧
      (inv.operation = .getattr → (invoke I inv ops stk w).1 = .ok (.int (CInt.int.wrap 0), ops :: stk)) ∧
      ∀ out, (invoke I inv ops stk w).1 = .ok out → out = (.int (CInt.int.wrap 0), ops :: stk)

/-- The handler of `utimens` gets two tables that survive. -/
def TimesSurvive : Prop :=
  ∀ (path : Path) (atime mtime : Struct timespec) (ops : Value) (stk : List Value) (w : World (Host X) Memory)
    (f : Value), Proper atime → Proper mtime → (I.lookup ops (.string (bytes "utimens")) w.heap).1 = .ok f →
    f ≠ .nil → ∃ heap r₁ r₂,
      pcalls (recorded w (invoke I (.utimens path (some (atime, mtime))) ops stk w).2) =
        [.pcall f [ops, (Datum.cstr path).value, .table r₁, .table r₂]
          (I.call f [ops, (Datum.cstr path).value, .table r₁, .table r₂] heap).1] ∧
      heap.tables r₁ = passed_time atime ∧ heap.tables r₂ = passed_time mtime ∧
      Survives I r₁ atime ∧ Survives I r₂ mtime

theorem passed_time_fields (t : Struct timespec) :
    (passed_time t).fields (bytes "tv_sec") = .integer (t .tv_sec) ∧
      (passed_time t).fields (bytes "tv_nsec") = .integer (t .tv_nsec) := by
  have hfield : ∀ k : timespec_member, (passed_time t).fields (key (S := Convert.timespec) k) = field_value t k := by
    intro k
    change (assign_all .empty (timespec_fields t)).fields _ = _
    rw [assign_all_fields]
    cases k <;> rfl
  refine ⟨(hfield .tv_sec).trans ?_, (hfield .tv_nsec).trans ?_⟩
  · exact congrArg Value.integer (CInt.wrap_val _)
  · exact congrArg Value.integer (CInt.wrap_val _)

theorem survives (r : Nat) {t : Struct timespec} (ht : Proper t) : Survives I r t := by
  intro Q r' f s inv ops stk w hkept ha hintegers htimes hspelt hop hreturns hQ
  have hholds : HoldsTime I Q r t :=
    ⟨ht.1, ht.2, _, Answers.of_plain fun h hQ => ⟨(hkept h hQ).2, (hkept h hQ).1⟩, passed_time_fields t⟩
  choose other hother using htimes
  have hwf : WellFormed I Q r' f fun s' => if hs : s' = s then some t else other s' hs := by
    refine ⟨ha, hintegers, fun s' => ?_⟩
    by_cases hs : s' = s
    · subst hs
      simpa using Spelt.table hspelt hholds
    · simpa [hs] using hother s' hs
  have hfinish : inv.callback.finish = .reply .stat := by
    cases inv <;> first | rfl | simp [Invocation.operation] at hop
  have hname : inv.callback.name = inv.operation.name := by
    rw [inv.name_eq, if_neg]
    rintro heq
    rw [heq] at hop
    simp at hop
  obtain ⟨hdecoded, hzero, hreturned⟩ := invoke_attributes inv.callback_counted inv.converters_nodup hfinish
    (hname ▸ hreturns) hwf stk hQ
  refine ⟨(hdecoded.times s).trans (by simp), fun hgetattr => hzero ?_, hreturned⟩
  cases inv with
  | getattr path => rfl
  | _ => simp [Invocation.operation] at hgetattr

theorem attributes_and_times : AttributesExact I ∧ TimesSurvive I := by
  refine ⟨?_, ?_⟩
  · intro M p Q r f time hwf stk index hslot w hQ
    obtain ⟨w', hexec, hdecoded⟩ := hwf.decode p hQ
    rw [convert_exec I .stat p hslot, Target.steps, hexec]
    exact ⟨rfl, hdecoded⟩
  · intro path atime mtime ops stk w f ha hm hf hnil
    obtain ⟨tables, vs, handles, heap, hcalled⟩ := callback_called I
      (Invocation.callback_counted (.utimens path (some (atime, mtime))))
      (Invocation.converters_nodup (.utimens path (some (atime, mtime)))) stk hf hnil
    have hargs := hcalled.args
    simp only [Invocation.callback, Callback.utimens, List.forall₂_cons_left_iff, List.forall₂_nil_left_iff]
      at hargs
    obtain ⟨_, _, rfl, ⟨_, _, ⟨r₁, rfl, -, hr₁⟩, ⟨_, _, ⟨r₂, rfl, -, hr₂⟩, rfl, rfl⟩, rfl⟩, rfl⟩ := hargs
    refine ⟨_, r₁, r₂, hcalled.calls, ?_, ?_, survives I r₁ ha, survives I r₂ hm⟩
    · simp [Heap.share, hr₁, passed_time]
    · simp [Heap.share, hr₂, passed_time]

/-- The fields of a state whose handlers have stored a time: table 0 has the handlers, table 1 the
attributes with table 2 as the modification time. -/
def stored_fields (t : Struct timespec) : Nat → Bytes → Value
  | 0, k => if k = bytes "utimens" then .function 1 else if k = bytes "getattr" then .function 2 else .nil
  | 1, k => if k = bytes "st_mtim" then .table 2 else .nil
  | _, k => (passed_time t).fields k

def stored (t : Struct timespec) (next : Nat) : World (Host Unit) Memory where
  heap := ⟨fun r => ⟨stored_fields t r, false, true⟩, next, ⟨fun _ => none, true, [], ()⟩⟩
  mem := .zeroed
  trace := []

/-- The tables are still there. -/
def Stored (t : Struct timespec) (h : Heap (Host Unit)) : Prop :=
  2 < h.next ∧ ∀ r ≤ 2, (h.tables r).fields = stored_fields t r ∧ (h.tables r).metatable = false

theorem stored_answers (t : Struct timespec) {r : Nat} (hr : r ≤ 2) :
    Answers (.constant (.ok (.table 1))) (Stored t) (.table r) (stored_fields t r) :=
  Answers.of_plain fun _ hQ => ⟨(hQ.2 r hr).2, (hQ.2 r hr).1⟩

theorem stored_returns (t : Struct timespec) :
    ReturnsTable (.constant (.ok (.table 1))) (Stored t) (.table 0) "getattr" 1 where
  grown := fun _ _ hQ hg => ⟨Nat.lt_of_lt_of_le hQ.1 hg.next, fun r hr => by
    rw [hg.tables r (Nat.lt_of_le_of_lt hr hQ.1)]
    exact hQ.2 r hr⟩
  handler := by
    refine ⟨.function 2, by simp, fun h hQ => stored_answers t (Nat.zero_le 2) h hQ _, fun _ _ hQ => ⟨rfl, ?_⟩⟩
    refine ⟨hQ.1, fun r hr => ?_⟩
    have hfields := hQ.2 r hr
    simp only [Interp.constant, Heap.share]
    split <;> exact hfields

def half_past : Struct timespec := mk_timespec (CInt.time_t.wrap 1) (CInt.long.wrap 500000000)

theorem attributes_and_times_half_past :
    Stamp.mtim.time (invoke (.constant (.ok (.table 1))) (.getattr (some (bytes "/"))) (.table 0) []
      (stored half_past 4)).2.mem.stat = half_past ∧
    (invoke (.constant (.ok (.table 1))) (.getattr (some (bytes "/"))) (.table 0) [] (stored half_past 4)).1 =
      .ok (.int (CInt.int.wrap 0), [.table 0]) := by
  have hproper : Proper half_past := by
    constructor <;> decide
  have hcalls : pcalls (recorded (stored half_past 2) (invoke (.constant (.ok (.table 1)))
      (.utimens (some (bytes "/")) (some (half_past, half_past))) (.table 0) [] (stored half_past 2)).2) =
      [.pcall (.function 1) [.table 0, .string (bytes "/"), .table 2, .table 3] (.ok (.table 1))] := by
    decide +kernel
  obtain ⟨heap, r₁, r₂, hpassed, -, -, hsurvives, -⟩ := (attributes_and_times (.constant (.ok (.table 1)))).2
    (some (bytes "/")) half_past half_past (.table 0) [] (stored half_past 2) (.function 1) hproper hproper
    (by decide +kernel) (by simp)
  rw [hcalls] at hpassed
  obtain rfl : r₁ = 2 := by
    simp only [List.cons.injEq, Event.pcall.injEq, Value.table.injEq] at hpassed
    exact hpassed.1.2.1.2.2.1.symm
  refine And.imp_right (fun hout => hout.1 rfl) (hsurvives (Stored half_past) 1 (stored_fields half_past 1) .mtim
    (.getattr (some (bytes "/"))) (.table 0) [] (stored half_past 4) ?_ (stored_answers half_past (by decide)) ?_ ?_ ?_
    (Or.inl rfl) (stored_returns half_past) ?_)
  · exact fun h hQ => hQ.2 2 (Nat.le_refl 2)
  · intro k hk
    have hother : bytes "st_mtim" ∉ attributes.map (key (S := Convert.stat)) := by decide +kernel
    exact Or.inl (if_neg fun heq => hother (List.mem_map.mpr ⟨k, hk, heq⟩))
  · intro s hs
    have hother : ∀ s : Stamp, s ≠ .mtim → bytes "st_mtim" ∉ s.keys := by
      intro s hs
      cases s <;> first | decide +kernel | exact absurd rfl hs
    exact ⟨none, .absent fun key hkey => if_neg fun heq : key = bytes "st_mtim" => hother s hs (heq ▸ hkey)⟩
  · refine ⟨bytes "st_mtim", by simp [Stamp.keys], by simp [stored_fields], fun key _ hne => ?_⟩
    exact if_neg hne
  · refine ⟨by decide, fun r _ => ⟨rfl, rfl⟩⟩

/-! ## Write-back -/

/-- The handler of `init` gets the connection info as a table. Where it leaves the table as some
assignments make it, the callback returns, and exactly the members finally assigned to have changed. -/
def InitExact : Prop :=
  ∀ (ops : Value) (stk : List Value) (w : World (Host X) Memory) (f : Value),
    Invocation.init.field I "init" ops w = .ok f → f ≠ .nil → ∃ r,
      (Callback.init.handed I ops [.table r] w).tables r = Converter.conn_info.passed w.mem ∧
      pcalls (recorded w (invoke I .init ops stk w).2) =
        [.pcall f [ops, .table r] (I.call f [ops, .table r] (Callback.init.handed I ops [.table r] w)).1] ∧
      ∀ assignments, (∀ field ∈ assignments, Allowed .conn_info field) →
        (I.call f [ops, .table r] (Callback.init.handed I ops [.table r] w)).2.tables r =
          Converter.conn_info.assigned w.mem assignments →
        (invoke I .init ops stk w).1 = .ok (.self, ops :: stk) ∧
          WrittenBack .conn_info assignments w.mem.conn_info (invoke I .init ops stk w).2.mem.conn_info

/-- What the handler of `lock` gets. -/
def lock_args (path : Path) (command : CInt.int.Val) (r r' : Nat) : List Value :=
  [(Datum.cstr path).value, .table r', (Datum.int command).value, .table r]

/-- The handler of `lock` gets the file info as table `r'` and the lock as table `r`. Where it leaves `r` as
some assignments make it, exactly the members of the lock finally assigned to have changed, and the
destructor of the file info is reached, whatever has become of `r'`. The callback returns if the file
info also fits. -/
def LockExact : Prop :=
  ∀ (path : Path) (command : CInt.int.Val) (ops : Value) (stk : List Value) (w : World (Host X) Memory) (f : Value),
    (Invocation.lock path command).field I "lock" ops w = .ok f → f ≠ .nil → ∃ r r' h,
      h = (Callback.lock path command).handed I ops (lock_args path command r r') w ∧
      h.tables r = Converter.flock.passed w.mem ∧ h.tables r' = Converter.file_info.passed w.mem ∧
      pcalls (recorded w (invoke I (.lock path command) ops stk w).2) =
        [.pcall f (ops :: lock_args path command r r') (I.call f (ops :: lock_args path command r r') h).1] ∧
      ∀ assignments, (∀ field ∈ assignments, Allowed .flock field) →
        (I.call f (ops :: lock_args path command r r') h).2.tables r = Converter.flock.assigned w.mem assignments →
        WrittenBack .flock assignments w.mem.flock (invoke I (.lock path command) ops stk w).2.mem.flock ∧
          (∃ index, .destructed index (some (.table r')) ∈ recorded w (invoke I (.lock path command) ops stk w).2) ∧
          ∀ assignments', (∀ field ∈ assignments', Allowed .file_info field) →
            (I.call f (ops :: lock_args path command r r') h).2.tables r' =
              Converter.file_info.assigned w.mem assignments' →
            ((∃ ret, (invoke I (.lock path command) ops stk w).1 = .ok (ret, ops :: stk)) ↔
              (w.mem.file_info .fh).val < 2 ^ 63 ∨ ∃ i, last_assigned assignments' (bytes "fh") = some (.integer i))

theorem init_exact : InitExact I := by
  intro ops stk w f hf hnil
  obtain ⟨tables, vs, ret, w₁, hleft⟩ := callback_left I Invocation.init.callback_counted
    Invocation.init.converters_nodup rfl (by decide) stk hf hnil
  obtain ⟨⟨c, r⟩, rfl, rfl⟩ := List.map_eq_singleton_iff.mp hleft.converters
  have hargs := hleft.args
  simp only [Invocation.callback, Callback.init, List.forall₂_cons_left_iff, List.forall₂_nil_left_iff] at hargs
  obtain ⟨_, _, rfl, rfl, rfl⟩ := hargs
  have hpassed := hleft.passed (d := .conn_info) (t := r) (by simp) (by simp [Tables.value])
  refine ⟨r, hpassed, hleft.calls, fun assignments hallowed hassigned => ?_⟩
  have hfound : w₁.heap.tables r = Converter.conn_info.assigned w.mem assignments := by
    rw [hleft.found]
    exact hassigned
  obtain ⟨out, w', hexec, -, hdestroyed⟩ := destroyed_single I (c := .conn_info) hallowed hfound (hleft.structs _)
    (stk.length + 1)
  have hout := hleft.out_eq
  have hmem := hleft.mem_eq
  rw [hexec] at hout hmem
  cases hdestroyed with
  | refused hfits => exact absurd (Converter.fits (by simp) w.mem assignments) hfits
  | written hfits hok hset hheap hwritten =>
      rw [hok, hleft.self rfl] at hout
      refine ⟨hout, ?_⟩
      rw [invoke, hmem, hset]
      exact hwritten

theorem lock_exact : LockExact I := by
  intro path command ops stk w f hf hnil
  obtain ⟨tables, vs, ret, w₁, hleft⟩ := callback_left I (Invocation.lock path command).callback_counted
    (Invocation.lock path command).converters_nodup rfl (by simp [Invocation.callback, Callback.lock, Arg.isPush])
    stk hf hnil
  obtain ⟨⟨c', r'⟩, tables, rfl, rfl, hrest⟩ := List.map_eq_cons_iff.mp hleft.converters
  obtain ⟨⟨c, r⟩, rfl, rfl⟩ := List.map_eq_singleton_iff.mp hrest
  have hargs := hleft.args
  simp only [Invocation.callback, Callback.lock, List.forall₂_cons_left_iff, List.forall₂_nil_left_iff] at hargs
  obtain ⟨_, _, rfl, ⟨_, _, rfl, ⟨_, _, rfl, ⟨_, _, rfl, rfl, rfl⟩, rfl⟩, rfl⟩, rfl⟩ := hargs
  have hpassed := hleft.passed (d := .flock) (t := r) (by simp) (List.mem_of_getElem? (i := 3) rfl)
  have hpassed' := hleft.passed (d := .file_info) (t := r') (by simp) (List.mem_of_getElem? (i := 1) rfl)
  refine ⟨r, r', _, rfl, hpassed, hpassed', hleft.calls, fun assignments hallowed hassigned => ?_⟩
  have hfound : w₁.heap.tables r = Converter.flock.assigned w.mem assignments := by
    rw [hleft.found]
    exact hassigned
  obtain ⟨out, w₂, hexec, htrace₂, hdestroyed⟩ := destroyed_single I (c := .flock) hallowed hfound (hleft.structs _)
    (stk.length + 2)
  have hout := hleft.out_eq
  have hmem := hleft.mem_eq
  have htrace := hleft.destructed
  cases hdestroyed with
  | refused hfits => exact absurd (Converter.fits (by simp) w.mem assignments) hfits
  | @written lock _ hok hset hheap hwritten =>
      rw [hok] at hexec
      rw [destruct_all, Prog.exec_bind_of_ok hexec] at hout hmem htrace
      obtain ⟨⟨info, hinfo⟩, htrace'⟩ := destruct_exec I .file_info r'
        (.destructed ((stk.length + 1 : Nat) + 1 : Int) (some (.table r'))) w₂
      refine ⟨?_, ⟨_, mem_recorded (hleft.trace.trans htrace₂) (htrace'.trans htrace)⟩,
        fun assignments' hallowed' hassigned' => ?_⟩
      · rw [invoke, hmem, hinfo, hset]
        exact hwritten
      · have hfound' : w₂.heap.tables r' = Converter.file_info.assigned w.mem assignments' := by
          rw [hheap, hleft.found]
          exact hassigned'
        have hinfo' : Converter.file_info.ptr.get w₂.mem = Converter.file_info.ptr.get w.mem := by
          rw [hset, Converter.ptr_set_of_ne (by simp), hleft.structs]
        obtain ⟨out', w₃, hexec', hdestroyed'⟩ := destroyed I (c := .file_info) hallowed' hfound' hinfo'
          (.destructed ((stk.length + 1 : Nat) + 1 : Int) (some (.table r')))
        rw [hexec'] at hout
        rw [invoke, hout, ← file_info_fits_iff]
        cases hdestroyed' with
        | written hfits hok' =>
            rw [hok']
            exact iff_of_true ⟨ret, rfl⟩ hfits
        | refused hfits herr =>
            rw [herr]
            exact iff_of_false (by simp [Except.map]) hfits

theorem write_back_exact : InitExact I ∧ LockExact I := ⟨init_exact I, lock_exact I⟩

/-- What becomes of a table when a script makes assignments to it. -/
def assign_to (assignments : List (Bytes × Value)) (h : Heap (Host Unit)) : Value → Heap (Host Unit)
  | .table r => if (h.tables r).shared then h.set r (assign_all (h.tables r) assignments) else h
  | _ => h

theorem assign_to_scripted (assignments : List (Bytes × Value)) (h : Heap (Host Unit)) (v : Value) :
    h.Scripted (assign_to assignments h v) := by
  cases v with
  | table r =>
      rw [assign_to]
      split
      · rename_i hshared
        refine ⟨Nat.le_refl _, fun s _ hs => Function.update_of_ne ?_ ..⟩
        rintro rfl
        rw [hshared] at hs
        cases hs
      · exact .refl h
  | _ => exact .refl h

theorem assign_to_tables {h : Heap (Host Unit)} {r : Nat} (hshared : (h.tables r).shared = true)
    (assignments : List (Bytes × Value)) (s : Nat) :
    (assign_to assignments h (.table r)).tables s =
      if s = r then assign_all (h.tables r) assignments else h.tables s := by
  rw [assign_to, if_pos hshared]
  exact Function.update_apply ..

/-- Functions that make assignments to the table that is their last argument, and raise an error. -/
def assigning (assignments : List (Bytes × Value)) : Interp (Host Unit) where
  __ := Interp.constant (.error (.string (bytes "failed")))
  call _ args h := (.error (.string (bytes "failed")), assign_to assignments h (args.getLast?.getD .nil))
  call_scripted _ _ _ := assign_to_scripted ..

/-- Functions that make assignments to both tables of `lock`, and return 0. -/
def locking (info lock : List (Bytes × Value)) : Interp (Host Unit) where
  __ := Interp.constant (.ok (.integer (CInt.int64_t.wrap 0)))
  call _ args h :=
    (.ok (.integer (CInt.int64_t.wrap 0)), assign_to lock (assign_to info h (args.getD 2 .nil)) (args.getD 4 .nil))
  call_scripted _ _ _ := (assign_to_scripted ..).trans (assign_to_scripted ..)

/-- A handler that limits the size of a write and then fails. -/
def limiting : List (Bytes × Value) := [(bytes "max_write", .integer (CInt.int64_t.wrap 4096))]

theorem limiting_allowed : ∀ field ∈ limiting, Allowed .conn_info field := by
  intro field hfield
  obtain rfl := List.mem_singleton.mp hfield
  have hlimit : CInt.unsigned_int.Mem (CInt.int64_t.wrap 4096).val := by decide
  refine ⟨fun k _ _ => Or.inr ⟨_, rfl, ?_⟩, fun k hk => absurd hk (by simp [Target.steps, conn_info_steps])⟩
  cases k <;> exact hlimit

/-- A handler that has a handle of its own and gives the whole file to somebody else. -/
def refusing_info : List (Bytes × Value) := [(bytes "fh", .integer (CInt.int64_t.wrap 5))]

def refusing_lock : List (Bytes × Value) := [(bytes "l_pid", .integer (CInt.int64_t.wrap 7))]

theorem refusing_info_allowed : ∀ field ∈ refusing_info, Allowed .file_info field := by
  intro field hfield
  obtain rfl := List.mem_singleton.mp hfield
  constructor
  · intro k _ hk
    cases k with
    | fh => exact Or.inr ⟨_, rfl, by decide⟩
    | _ => exact absurd hk (by decide +kernel)
  · intro k hstream hk
    cases k with
    | fh =>
        simp only [Target.steps, file_info_steps, List.mem_cons, List.not_mem_nil, reduceCtorEq, false_or, or_false]
          at hstream
        cases hstream
    | _ => exact absurd hk (by decide +kernel)

theorem refusing_lock_allowed : ∀ field ∈ refusing_lock, Allowed .flock field := by
  intro field hfield
  obtain rfl := List.mem_singleton.mp hfield
  refine ⟨fun k _ _ => Or.inr ⟨_, rfl, ?_⟩, fun k hk => absurd hk (by simp [Target.steps, flock_steps])⟩
  cases k <;> decide

theorem write_back_exact_limiting :
    ((invoke (assigning limiting) .init (.table 0) [] (loaded [("init", .function 1)] .zeroed)).2.mem.conn_info
      .max_write).val = 4096 ∧
    ((invoke (locking refusing_info refusing_lock) (.lock (some (bytes "/")) (CInt.int.wrap 0)) (.table 0) []
      (loaded [("lock", .function 1)] .zeroed)).2.mem.flock .l_pid).val = 7 ∧
    ∃ ret, (invoke (locking refusing_info refusing_lock) (.lock (some (bytes "/")) (CInt.int.wrap 0)) (.table 0) []
      (loaded [("lock", .function 1)] .zeroed)).1 = .ok (ret, [.table 0]) := by
  constructor
  · obtain ⟨r, hpassed, -, hwritten⟩ := (write_back_exact (assigning limiting)).1 (.table 0) []
      (loaded [("init", .function 1)] .zeroed) (.function 1) (by decide +kernel) (by simp)
    obtain ⟨-, hwritten⟩ := hwritten limiting limiting_allowed (by
      refine (assign_to_tables (by rw [hpassed]; rfl) limiting r).trans ?_
      rw [if_pos rfl, hpassed, Converter.assigned])
    exact hwritten.integer .max_write (by simp [Target.steps, conn_info_steps]) (CInt.int64_t.wrap 4096)
      (by decide +kernel)
  · obtain ⟨r, r', h, -, hlock, hinfo, -, hwritten⟩ := (write_back_exact (locking refusing_info refusing_lock)).2
      (some (bytes "/")) (CInt.int.wrap 0) (.table 0) [] (loaded [("lock", .function 1)] .zeroed) (.function 1)
      (by decide +kernel) (by simp)
    have hne : r' ≠ r := by
      rintro rfl
      have hfields := congrArg (fun t : Table => t.fields (bytes "fh")) (hlock.symm.trans hinfo)
      revert hfields
      decide +kernel
    have hshared' : (h.tables r').shared = true := by rw [hinfo]; rfl
    have hshared : ((assign_to refusing_info h (.table r')).tables r).shared = true := by
      rw [assign_to_tables hshared', if_neg hne.symm, hlock]
      rfl
    have hset : (assign_to refusing_lock (assign_to refusing_info h (.table r')) (.table r)).tables r =
        Converter.flock.assigned Memory.zeroed refusing_lock := by
      rw [assign_to_tables hshared, if_pos rfl, assign_to_tables hshared', if_neg hne.symm, hlock]
      rfl
    have hset' : (assign_to refusing_lock (assign_to refusing_info h (.table r')) (.table r)).tables r' =
        Converter.file_info.assigned Memory.zeroed refusing_info := by
      rw [assign_to_tables hshared, if_neg hne, assign_to_tables hshared', if_pos rfl, hinfo]
      rfl
    obtain ⟨hlock, -, hreturns⟩ := hwritten refusing_lock refusing_lock_allowed hset
    refine ⟨hlock.integer .l_pid (by simp [Target.steps, flock_steps]) (CInt.int64_t.wrap 7) (by decide +kernel), ?_⟩
    exact (hreturns refusing_info refusing_info_allowed hset').mpr (Or.inr ⟨CInt.int64_t.wrap 5, by decide +kernel⟩)

end DromozoaFuse.Operations
