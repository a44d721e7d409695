import DromozoaFuse.Operations.Frame
import DromozoaFuse.Operations.Results

/-!
# Reports

`DROMOZOA_UNEXPECTED` reports the replies of handlers that mean nothing to libfuse. There is one report of such a
reply and none of any other, whatever else becomes of the callback.
-/

namespace DromozoaFuse.Operations

open Base Lua DromozoaFuse.Bind DromozoaFuse.Convert Fill

variable {X : Type} (I : Interp (Host X))

/-- A value that is no integer means something: nil where nothing is asked for, and else a table or a string. -/
def Other.understands : Other → Value → Bool
  | .nil _, v => v = .nil
  | .stat, v | .statvfs, v => v.type = .table
  | .readlink _, v | .read _, v | .xattr _, v => (I.tolstring v).isSome

/-- The texts that are reported of a reply. A text ends at its first NUL. -/
def Other.report (o : Other) : Except Value Value → List (Option Bytes)
  | .ok v => if (status v).isSome ∨ o.understands I v then [] else [some (cstring (bytes o.what))]
  | .error e => if (status e).isSome then [] else [(I.tolstring e).map cstring]

def Finish.report : Finish → Except Value Value → List (Option Bytes)
  | .reply o, result => o.report I result
  | .init, .ok _ | .destroy, .ok _ => []
  | .init, .error e | .destroy, .error e => [(I.tolstring e).map cstring]

/-- The reports of what a callback has recorded. -/
def Finish.reports (finish : Finish) (ev : List Event) : List (Option Bytes) :=
  ev.flatMap fun
    | .pcall _ _ result => finish.report I result
    | _ => []

/-! ## Answers -/

theorem decode_unexpected {S : Layout} {p : Ptr Memory (Struct S)}
    (hp : ∀ m that, (p.set m that).unexpected = m.unexpected) (steps : List (Step S)) (v : Value)
    (w : World (Host X) Memory) : ((decode I p steps v).exec w).2.mem.unexpected = w.mem.unexpected := by
  have hsafe : Safe (fun m : Memory => m.unexpected = w.mem.unexpected) (fun _ => True) (decode I p steps v) :=
    decode_safe I p (fun s _ => Step.allows_of_set (fun m that hm => (hp m that).trans hm) s) v
  exact (hsafe w rfl).1

/-- What `finish` returns tells whether the value means something, and it raises an error only where it does. -/
def Other.Finishes (o : Other) (v : Value) (w : World (Host X) Memory)
    (out : Except Value (Option CInt.int.Val) × World (Host X) Memory) : Prop :=
  out.2.mem.unexpected = w.mem.unexpected ∧ (∀ i, out.1 = .ok i → i.isSome = o.understands I v) ∧
    ∀ e, out.1 = .error e → o.understands I v

theorem Other.finishes_decode {o : Other} {v : Value} (ho : o.understands I v = decide (v.type = .table)) {S : Layout}
    {p : Ptr Memory (Struct S)} (hp : ∀ m that, (p.set m that).unexpected = m.unexpected) (steps : List (Step S))
    (w : World (Host X) Memory) : o.Finishes I v w ((do
      return if ← decode I p steps v then some (CInt.int.wrap 0) else none :
        StatelessM X (Option CInt.int.Val)).exec w) := by
  have hmem := decode_unexpected I hp steps v w
  rcases hexec : (decode I p steps v).exec w with ⟨e | b, w₁⟩
  · rw [hexec] at hmem
    rw [Prog.exec_bind_of_error hexec]
    refine ⟨hmem, (fun i hi => by cases hi), fun e' _ => ?_⟩
    by_contra hv
    rw [ho, decide_eq_true_eq] at hv
    rw [decode, if_neg hv] at hexec
    cases hexec
  · rw [hexec] at hmem
    rw [Prog.exec_bind_of_ok hexec]
    refine ⟨hmem, fun i hi => ?_, fun e he => by cases he⟩
    cases hi
    have hb := decode_ok I hexec
    rw [ho]
    cases b <;> simp_all

/-- Neither a conversion nor a buffer that is filled reports anything. -/
theorem Other.finishes (o : Other) (v : Value) (w : World (Host X) Memory) :
    o.Finishes I v w ((o.finish I v).exec w) := by
  cases o with
  | nil d =>
      refine ⟨rfl, fun i hi => ?_, fun e he => by cases he⟩
      cases hi
      by_cases hv : v = .nil <;> simp [understands, hv]
  | stat => exact finishes_decode I rfl (fun _ _ => rfl) stat_steps w
  | statvfs => exact finishes_decode I rfl (fun _ _ => rfl) statvfs_steps w
  | readlink size | read size | xattr size =>
      simp only [Finishes, finish, understands]
      cases I.tolstring v <;>
        exact ⟨rfl, (fun i hi => by cases hi; rfl), fun e he => by cases he⟩

theorem Other.answer_unexpected (o : Other) (result : Except Value Value) (w : World (Host X) Memory) :
    ((o.answer I result).exec w).2.mem.unexpected = w.mem.unexpected ++ o.report I result := by
  cases result with
  | ok v =>
      obtain ⟨hmem, hok, herror⟩ := o.finishes I v w
      simp only [answer, report]
      cases status v with
      | some i => simp
      | none =>
          rcases hexec : (o.finish I v).exec w with ⟨e | i, w₁⟩
          · rw [hexec] at hmem herror
            rw [Prog.exec_bind_of_error hexec, if_pos (Or.inr (herror e rfl)), List.append_nil]
            exact hmem
          · rw [hexec] at hmem hok
            rw [Prog.exec_bind_of_ok hexec, ← hok i rfl]
            cases i with
            | some i => simpa using hmem
            | none => simpa [UNEXPECTED] using hmem
  | error e =>
      simp only [answer, report]
      cases status e with
      | some i => simp
      | none => rfl

theorem Finish.answer_unexpected (finish : Finish) (result : Except Value Value) (w : World (Host X) Memory) :
    ((finish.answer I result).exec w).2.mem.unexpected = w.mem.unexpected ++ finish.report I result := by
  cases finish with
  | reply o =>
      have hanswer := o.answer_unexpected I result w
      simp only [answer, report]
      rcases hexec : (o.answer I result).exec w with ⟨e | i, w₁⟩
      · rw [hexec] at hanswer
        rw [Prog.exec_bind_of_error hexec]
        exact hanswer
      · rw [hexec] at hanswer
        rw [Prog.exec_bind_of_ok hexec]
        exact hanswer
  | init | destroy => cases result <;> simp [answer, notified, report, UNEXPECTED]

/-! ## Callbacks -/

/-- Whatever becomes of a callback, it has reported what its recorded reply asks for. -/
theorem callback_reports {c : Callback} (hc : c.Counted) (hnodup : c.converters.Nodup) (ops : Value)
    (stk : List Value) (w : World (Host X) Memory) :
    (((callback I c).run (ops :: stk)).exec w).2.mem.unexpected =
      w.mem.unexpected ++ c.finish.reports I (pcalls (recorded w (((callback I c).run (ops :: stk)).exec w).2)) := by
  have hplays := c.scope_plays I hnodup ops (stk.length + 1) (opened (ops :: stk) w)
  rw [callback_exec I hc]
  generalize (c.scope I (stk.length + 1) ops).exec (opened (ops :: stk) w) = result at hplays
  obtain ⟨tables, a, w₁, hfst, -, hends, ⟨ev, htr, hpcalls⟩, -, hout⟩ := hplays.tail
  have hunexpected : (finished (ops :: stk) result).2.mem.unexpected = w₁.mem.unexpected := by
    rcases hout with ⟨e, -, -, hmem, -⟩ | ⟨r, -, -, hmem, -⟩
    · rw [hmem]
    · have hsafe : Safe (fun m : Memory => m.unexpected = w₁.mem.unexpected) (fun _ => True)
          (destruct_all I tables (stk.length + 1)) :=
        destruct_all_safe (fun c _ s _ => Step.allows_of_set
          (fun m that hm => (by cases c <;> rfl : (c.ptr.set m that).unexpected = m.unexpected).trans hm) s) _
      rw [hmem]
      exact (hsafe w₁ rfl).1
  have hcalls : ∀ mid, w₁.trace =
      (c.looked_up I ops (c.prepared tables (stk.length + 1) (opened (ops :: stk) w))).trace ++ mid →
      pcalls (recorded w (finished (ops :: stk) result).2) = pcalls mid := fun mid hmid =>
    pcalls_looked_up I c (by rw [htr, hmid]) hpcalls
  rw [hunexpected]
  cases hends with
  | raised h | missing h =>
      rw [hcalls [] (by simp)]
      exact (List.append_nil _).symm
  | @called f vs hs heap h hf hgrown hargs hhandles _ a w₂ hanswer =>
      obtain ⟨reads, hanstr, hreads, -⟩ := c.finish.answer_judges I
        (reply_of I f (ops :: vs)
          { c.looked_up I ops (c.prepared tables (stk.length + 1) (opened (ops :: stk) w)) with heap })
        (called I f (ops :: vs)
          { c.looked_up I ops (c.prepared tables (stk.length + 1) (opened (ops :: stk) w)) with heap })
      have hanswered := c.finish.answer_unexpected I
        (reply_of I f (ops :: vs)
          { c.looked_up I ops (c.prepared tables (stk.length + 1) (opened (ops :: stk) w)) with heap })
        (called I f (ops :: vs)
          { c.looked_up I ops (c.prepared tables (stk.length + 1) (opened (ops :: stk) w)) with heap })
      rw [hanswer] at hanstr hanswered
      rw [hcalls (.pcall f (ops :: vs) (I.call f (ops :: vs) (heap.share (ops :: vs))).1 :: reads) (by
        rw [ended_trace, hanstr]
        simp [called])]
      have hone : pcalls (.pcall f (ops :: vs) (I.call f (ops :: vs) (heap.share (ops :: vs))).1 :: reads) =
          [.pcall f (ops :: vs) (I.call f (ops :: vs) (heap.share (ops :: vs))).1] := by
        change _ :: pcalls reads = _
        rw [pcalls_reads hreads]
      rw [hone, ended_mem, hanswered, Finish.reports, List.flatMap_singleton]
      rfl

/-! ## Invocations -/

theorem Other.result_of_report {o : Other} {result : Except Value Value} (h : o.report I result ≠ []) :
    o.result I result = ENOSYS := by
  cases result with
  | error e =>
      simp only [report] at h
      cases hstatus : status e with
      | some i => simp [hstatus] at h
      | none => simp [Other.result, hstatus]
  | ok v =>
      simp only [report] at h
      cases hstatus : status v with
      | some i => simp [hstatus] at h
      | none =>
          have hunderstands : o.understands I v = false := by
            by_contra hv
            simp [hstatus, hv] at h
          rw [Other.result, hstatus, Option.getD_none]
          cases o <;> simp_all [judge, understands]

theorem Finish.reports_pcalls (finish : Finish) (ev : List Event) :
    finish.reports I (pcalls ev) = finish.reports I ev := by
  induction ev with
  | nil => rfl
  | cons e ev ih =>
      cases e with
      | pcall f args reply => exact congrArg (finish.report I reply ++ ·) ih
      | _ => exact ih

theorem Finish.report_length (finish : Finish) (result : Except Value Value) :
    (finish.report I result).length ≤ 1 := by
  cases finish with
  | reply o => cases result <;> (simp only [report, Other.report]; split <;> simp)
  | init | destroy => cases result <;> simp [report]

/-- A reply that is reported has the status `-ENOSYS`. -/
theorem Finish.answer_of_report {finish : Finish} {result : Except Value Value} (h : finish.report I result ≠ [])
    {r : CInt.int.Val} {w w' : World (Host X) Memory} (hr : (finish.answer I result).exec w = (.ok (.int r), w')) :
    r = ENOSYS := by
  cases finish with
  | reply o =>
      obtain ⟨i, w₁, hi, hpure⟩ := Prog.exec_bind_ok hr
      cases hpure
      rw [o.answer_result I hi]
      exact Other.result_of_report I h
  | init | destroy =>
      cases result with
      | ok v => cases hr
      | error e => cases hr

/-- A recorded reply is what the handler has replied. -/
theorem invoke_reply {inv : Invocation} {ops : Value} {stk : List Value} {w : World (Host X) Memory} {f : Value}
    {args : List Value} {reply : Except Value Value}
    (h : .pcall f args reply ∈ recorded w (invoke I inv ops stk w).2) : ∃ heap, reply = (I.call f args heap).1 := by
  have hmem : .pcall f args reply ∈ pcalls (recorded w (invoke I inv ops stk w).2) := List.mem_filter.mpr ⟨h, rfl⟩
  rw [invoke] at hmem
  cases callback_course I inv.callback_counted inv.converters_nodup ops stk w with
  | raised _ _ hcalls _ | missing _ _ _ _ _ hcalls _ =>
      rw [hcalls] at hmem
      cases hmem
  | called _ _ _ _ _ hcalls _ _ _ _ =>
      rw [hcalls, List.mem_singleton, Event.pcall.injEq] at hmem
      obtain ⟨rfl, rfl, rfl⟩ := hmem
      exact ⟨_, rfl⟩

/-- Whatever the handlers do, and whether a callback returns or raises an error, it has reported the reply that means
nothing to libfuse, if there was one, and nothing else; and it is `-ENOSYS` that libfuse gets then. A recorded reply is
what the handler has replied. -/
theorem reports_exact (inv : Invocation) (ops : Value) (stk : List Value) (w : World (Host X) Memory) :
    (invoke I inv ops stk w).2.mem.unexpected =
        w.mem.unexpected ++ inv.callback.finish.reports I (recorded w (invoke I inv ops stk w).2) ∧
      (inv.callback.finish.reports I (recorded w (invoke I inv ops stk w).2)).length ≤ 1 ∧
      (∀ f args reply, .pcall f args reply ∈ recorded w (invoke I inv ops stk w).2 →
        ∃ heap, reply = (I.call f args heap).1) ∧
      ∀ r stk', (invoke I inv ops stk w).1 = .ok (.int r, stk') →
        inv.callback.finish.reports I (recorded w (invoke I inv ops stk w).2) ≠ [] → r = ENOSYS := by
  rw [← Finish.reports_pcalls]
  refine ⟨callback_reports I inv.callback_counted inv.converters_nodup ops stk w, ?_⟩
  refine And.imp_right (fun hreports => ⟨fun _ _ _ => invoke_reply I, hreports⟩) ?_
  rw [invoke]
  cases callback_course I inv.callback_counted inv.converters_nodup ops stk w with
  | raised _ _ hcalls _ | missing _ _ _ _ _ hcalls _ =>
      rw [hcalls]
      exact ⟨Nat.zero_le 1, fun _ _ _ hreports => absurd rfl hreports⟩
  | called _ _ _ _ _ hcalls _ hanswer hout _ =>
      rw [hcalls, Finish.reports, List.flatMap_singleton]
      refine ⟨Finish.report_length .., fun r stk' hr hreport => ?_⟩
      obtain ⟨returned, rfl, heq⟩ := hout _ hr
      rw [Prod.mk.injEq] at heq
      rw [← heq.1] at hanswer
      exact Finish.answer_of_report I hreport hanswer

end DromozoaFuse.Operations
