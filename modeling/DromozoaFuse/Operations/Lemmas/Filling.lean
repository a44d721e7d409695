import DromozoaFuse.FillDir.Lemmas.Record
import DromozoaFuse.Operations.Lemmas.Structs

/-!
# The fillers in a callback

What a callback keeps of the record before its protected call and after it, and which fillers are in
scope then.
-/

namespace DromozoaFuse.Operations

open Base Lua DromozoaFuse.Bind DromozoaFuse.Convert Fill

/-! ## What the phases keep -/

section

variable {X : Type} {I : Interp (Host X)} {Q : Heap (Host X) → Prop}

theorem UNEXPECTED_kept (what : Option Bytes) : Keeps Q (UNEXPECTED what : StatelessM X Unit) :=
  .silent (fun _ => rfl) fun _ => rfl

theorem Other.finish_kept (hI : LookupsKeep I Q) (o : Other) (v : Value) : Keeps Q (o.finish I v) := by
  cases o with
  | nil d => exact .pure trivial
  | stat => exact (decode_keeps I stat_ptr hI stat_steps v).bind fun _ _ => .pure trivial
  | statvfs => exact (decode_keeps I statvfs_ptr hI statvfs_steps v).bind fun _ _ => .pure trivial
  | _ =>
      simp only [finish]
      cases I.tolstring v with
      | none => exact .pure trivial
      | some s => exact .silent (fun _ => rfl) fun _ => rfl

theorem Other.answer_kept (hI : LookupsKeep I Q) (o : Other) (reply : Except Value Value) :
    Keeps Q (o.answer I reply) := by
  cases reply with
  | ok v =>
      simp only [answer]
      cases status v with
      | some i => exact .pure trivial
      | none =>
          refine (o.finish_kept hI v).bind fun i _ => ?_
          cases i with
          | some i => exact .pure trivial
          | none => exact (UNEXPECTED_kept _).bind fun _ _ => .pure trivial
  | error e =>
      simp only [answer]
      cases status e with
      | some i => exact .pure trivial
      | none => exact (UNEXPECTED_kept _).bind fun _ _ => .pure trivial

theorem notified_kept {α : Type} (a : α) (reply : Except Value Value) : Keeps Q (notified I a reply) := by
  cases reply with
  | ok v => exact .pure trivial
  | error e => exact (UNEXPECTED_kept _).bind fun _ _ => .pure trivial

theorem Finish.answer_kept (hI : LookupsKeep I Q) (finish : Finish) (reply : Except Value Value) :
    Keeps Q (finish.answer I reply) := by
  cases finish with
  | reply o => exact (o.answer_kept hI reply).bind fun _ _ => .pure trivial
  | init => exact notified_kept Returned.self reply
  | destroy => exact notified_kept Returned.void reply

theorem destruct_all_kept (hI : LookupsKeep I Q) (tables : Tables) (height : Nat) :
    Keeps Q (destruct_all I tables height) := by
  induction tables generalizing height with
  | nil => exact .pure trivial
  | cons p tables ih =>
      have hrecord : ∀ e, Keeps Q (record e : StatelessM X Unit) :=
        fun e w hQ => ⟨hQ, ⟨[e], rfl, fun _ _ => trivial⟩, fun _ _ => trivial⟩
      exact (ih (height + 1)).bind fun _ _ => (hrecord _).bind fun _ _ =>
        (decode_keeps I _ hI _ _).bind fun _ _ => .pure trivial

end

/-! ## Callbacks without fillers -/

section

variable {X : Type} (I : Interp (Host X))

theorem tabled_host (m : Memory) (cs : List Converter) (h : Heap (Host X)) : (tabled m cs h).host = h.host := by
  induction cs generalizing h with
  | nil => rfl
  | cons c cs ih => exact ih _

theorem tabled_next (m : Memory) (cs : List Converter) (h : Heap (Host X)) : h.next ≤ (tabled m cs h).next := by
  induction cs generalizing h with
  | nil => exact Nat.le_refl _
  | cons c cs ih => exact Nat.le_trans (Nat.le_succ h.next) (ih (alloc h (c.table m)))

theorem lookups_keep_next (n : Nat) : LookupsKeep I fun h => n ≤ h.next :=
  fun o key h hn => Nat.le_trans hn (I.lookup_scripted o key h).next

theorem resetted_nil (w : World (Host X) Memory) : resetted [] w = w :=
  (congrArg Prod.snd (resets_exec [] w)).symm

def Arg.isFill : Arg → Bool
  | .fill_dir .. => true
  | _ => false

theorem make_args_host (tables : Tables) {args : List Arg} (hargs : ∀ arg ∈ args, arg.isFill = false)
    (values : List Value) (handles : List Nat) (w : World (Host X) Memory) :
    ∃ vs h, (make_args I tables args values handles).exec w = (.ok (vs, handles), { w with heap := h }) ∧
      h.host = w.heap.host := by
  induction args generalizing values w with
  | nil => exact ⟨values, w.heap, rfl, rfl⟩
  | cons arg args ih =>
      have ih := ih fun arg harg => hargs arg (List.mem_cons_of_mem _ harg)
      cases arg with
      | push d => exact ih (values ++ [d.value]) w
      | pushvalue c => exact ih (values ++ [tables.value c]) w
      | fill_dir function buffer => exact absurd (hargs _ List.mem_cons_self) (by simp [Arg.isFill])
      | timespec t =>
          obtain ⟨vs, h, hexec, hhost⟩ := ih (values ++ [.table w.heap.next])
            { w with heap := alloc w.heap (assign_all .empty (timespec_fields t)) }
          refine ⟨vs, h, ?_, hhost⟩
          rw [make_args, Prog.exec_bind_of_ok (build_exec I w _), hexec]

/-! ## The filler of `readdir` -/

def searched (ops : Value) (w : World (Host X) Memory) : Heap (Host X) :=
  (I.lookup ops (.string (bytes "readdir")) (tabled w.mem [.file_info] w.heap)).2

def readdir_args (path : Path) (offset : CInt.off_t.Val) (ops : Value) (handle : Nat) (tables : Tables) :
    List Value :=
  [ops, (Datum.cstr path).value, .userdata handle, (Datum.int offset).value, tables.value .file_info]

theorem make_readdir_args (path : Path) (buffer function : Nat) (offset : CInt.off_t.Val) (tables : Tables)
    (ops : Value) (w : World (Host X) Memory) :
    (make_args I tables (Callback.readdir path buffer function offset).args [ops] []).exec w =
      (.ok (readdir_args path offset ops w.heap.next tables, [w.heap.next]),
        { w with heap := alloc_fill_dir w.heap function buffer }) := rfl

def readdir_heap (path : Path) (buffer function : Nat) (offset : CInt.off_t.Val) (ops : Value) (tables : Tables)
    (w : World (Host X) Memory) : Heap (Host X) :=
  (alloc_fill_dir (searched I ops w) function buffer).share
    (readdir_args path offset ops (searched I ops w).next tables)

theorem readdir_called (path : Path) (buffer function : Nat) (offset : CInt.off_t.Val) {ops : Value}
    (stk : List Value) {w : World (Host X) Memory} {f : Value}
    (hf : (Callback.readdir path buffer function offset).handler I ops (tabled w.mem [.file_info] w.heap) = .ok f)
    (hnil : f ≠ .nil) :
    ∃ tables w₁,
      pcalls (recorded w (((callback I (.readdir path buffer function offset)).run (ops :: stk)).exec w).2) =
        [.pcall f (readdir_args path offset ops (searched I ops w).next tables)
          (I.call f (readdir_args path offset ops (searched I ops w).next tables)
            (readdir_heap I path buffer function offset ops tables w)).1] ∧
      w₁.heap = (I.call f (readdir_args path offset ops (searched I ops w).next tables)
        (readdir_heap I path buffer function offset ops tables w)).2 ∧
      (((callback I (.readdir path buffer function offset)).run (ops :: stk)).exec w).2.heap =
        ((destruct_all I tables (stk.length + 1)).exec (resetted [(searched I ops w).next] w₁)).2.heap := by
  obtain ⟨tables, vs, handles, heap, hcalled⟩ := callback_called I
    (Invocation.callback_counted (.readdir path buffer function offset))
    (Invocation.converters_nodup (.readdir path buffer function offset)) stk hf hnil
  obtain ⟨hvalues, hworld⟩ :=
    Prod.mk.inj (hcalled.made.symm.trans (make_readdir_args I path buffer function offset ..))
  obtain ⟨hvs, hhandles⟩ := Prod.mk.inj (Except.ok.inj hvalues)
  have hargs : ops :: vs = readdir_args path offset ops (searched I ops w).next tables := hvs
  have hheap : heap.share (ops :: vs) = readdir_heap I path buffer function offset ops tables w := by
    rw [hargs, readdir_heap]
    exact congrArg (fun h => Heap.share h _) (congrArg World.heap hworld)
  have hcalls := hcalled.calls
  obtain ⟨w₀, a, w₁, -, -, hheap₀, hanswer, hout⟩ := hcalled.ends
  have hquiet : Finish.call.isQuiet = true := rfl
  obtain ⟨r, w₂, hexec, -, hheap₂, -, -⟩ := Finish.answer_quiet I hquiet
    (I.call f (ops :: vs) (heap.share (ops :: vs))).1 w₀
  obtain ⟨rfl, rfl⟩ := Prod.mk.inj (hanswer.symm.trans hexec)
  rw [hheap, hargs] at hcalls hheap₀
  rcases hout with ⟨e, he, -⟩ | ⟨r', hr, -, -, hheap', -⟩
  · cases he
  · refine ⟨tables, w₁, hcalls, hheap₂.trans hheap₀, hheap'.trans ?_⟩
    rw [hhandles]
    rfl

end

section

variable {X : Type} {I : Interp (Host (Logged X))} {filler : Filler}

theorem looked_up_logs (hI : Confined filler I) (c : Callback) (ops : Value) {w : World (Host (Logged X)) Memory}
    (hs : InScope none w.heap.host) :
    Logs none w.heap.host
      (I.lookup ops (.string (bytes c.name)) (tabled w.mem c.converters w.heap)).2.host := by
  have hhost := tabled_host w.mem c.converters w.heap
  have hlog := hI.logs.2 ops (.string (bytes c.name)) (tabled w.mem c.converters w.heap) (hhost ▸ hs)
  rwa [hhost] at hlog

theorem Callback.Ends.logs (hI : Confined filler I) {c : Callback} (hargs : ∀ arg ∈ c.args, arg.isFill = false)
    {ops : Value} {tables : Tables} {w w' : World (Host (Logged X)) Memory} {out : Except Value Returned}
    (h : c.Ends I ops tables w (out, w')) (hs : InScope none (c.looked_up I ops w).heap.host) :
    Logs none (c.looked_up I ops w).heap.host w'.heap.host := by
  cases h with
  | raised h => exact .refl hs
  | missing h => exact .refl hs
  | @called f vs handles heap h hf hgrown _ hhandles hmake _ w₂ hanswer =>
      obtain ⟨vs', h', hmake', hhost⟩ := make_args_host I tables hargs [ops] [] (c.looked_up I ops w)
      obtain ⟨hvalues, hworld⟩ := Prod.mk.inj (hmake.symm.trans hmake')
      obtain rfl : handles = [] := (Prod.mk.inj (Except.ok.inj hvalues)).2
      obtain rfl : heap = h' := congrArg World.heap hworld
      rw [← hhost] at hs ⊢
      have hcall : Logs none heap.host
          (Operations.called I f (ops :: vs) { c.looked_up I ops w with heap }).heap.host :=
        hI.logs.1 f (ops :: vs) (heap.share (ops :: vs)) hs
      have hanswered := (Finish.answer_kept (hI.logs.2.keep heap.host) c.finish
        (reply_of I f (ops :: vs) { c.looked_up I ops w with heap }) _ hcall).1
      rw [hanswer] at hanswered
      cases out with
      | error e => exact hanswered
      | ok r =>
          rw [ended, resetted_nil]
          exact hanswered

theorem destructed_logs (hI : Confined filler I) (tables : Tables) (height : Nat)
    {w : World (Host (Logged X)) Memory} (hs : InScope none w.heap.host) :
    Logs none w.heap.host ((destruct_all I tables height).exec w).2.heap.host :=
  (destruct_all_kept (hI.logs.2.keep w.heap.host) tables height w (.refl hs)).1

theorem callback_logs (hI : Confined filler I) {c : Callback} (hc : c.Counted) (hnodup : c.converters.Nodup)
    (ops : Value) (stk : List Value) {w : World (Host (Logged X)) Memory} (hs : InScope none w.heap.host)
    (hquiet : (∀ arg ∈ c.args, arg.isFill = false) ∨
      ∀ f, c.handler I ops (tabled w.mem c.converters w.heap) = .ok f → f = .nil) :
    Logs none w.heap.host (((callback I c).run (ops :: stk)).exec w).2.heap.host := by
  have hplays := c.scope_plays I hnodup ops (stk.length + 1) (opened (ops :: stk) w)
  rw [callback_exec I hc]
  rcases hresult : (c.scope I (stk.length + 1) ops).exec (opened (ops :: stk) w) with ⟨out, w'⟩
  rw [hresult] at hplays
  obtain ⟨tables, a, w₁, -, -, hends, -, -, hout⟩ := hplays.tail
  have hlook := looked_up_logs hI c ops hs
  have hmid : Logs none w.heap.host w₁.heap.host := by
    refine hlook.trans ?_
    rcases hquiet with hargs | hnil
    · exact hends.logs hI hargs hlook.inScope
    · cases hends with
      | raised h => exact .refl hlook.inScope
      | missing h => exact .refl hlook.inScope
      | called h hf => exact absurd (hnil _ h) hf
  rcases hout with ⟨e, -, -, -, hheap⟩ | ⟨r, -, -, -, hheap, -⟩
  · exact hheap ▸ hmid
  · exact hheap ▸ hmid.trans (destructed_logs hI tables _ hmid.inScope)

theorem inScope_alloc_fill_dir {h : Heap (Host (Logged X))} (hs : InScope none h.host) (function buffer : Nat) :
    InScope (some ⟨h.next, function, buffer⟩) (alloc_fill_dir h function buffer).host where
  registered := hs.registered
  active := by
    rintro a ⟨⟩
    simp [alloc_fill_dir, Host.set, hs.registered]
  others := by
    intro r d hd hother
    have hr : r ≠ h.next := fun heq => hother _ rfl heq.symm
    have hd : Function.update h.host.fill_dirs h.next _ r = some d := hd
    rw [Function.update_of_ne hr] at hd
    exact hs.others r d hd fun a ha => by cases ha

theorem inScope_reset {host : Host (Logged X)} {a : Active} (hs : InScope (some a) host) :
    InScope none (reset_all [a.handle] host) where
  registered := hs.registered
  active := by
    intro b hb
    cases hb
  others := by
    intro r d hd _
    obtain ⟨d', hd', rfl⟩ := Option.map_eq_some_iff.mp hd
    by_cases hr : r = a.handle
    · subst hr
      obtain rfl : d' = _ := Option.some.inj (hd'.symm.trans (hs.active a rfl))
      simp [FillDir.reset]
    · obtain rfl := hs.others r d' hd' fun b hb heq => hr (by cases hb; exact heq.symm)
      simp [FillDir.reset]

/-- What is on record of a `readdir` that has called its handler. -/
structure Listed (I : Interp (Host (Logged X))) (function buffer : Nat) (f : Value) (args : List Value)
    (handle : Nat) (before : Heap (Host (Logged X))) (w w' : World (Host (Logged X)) Memory) : Prop where
  calls : pcalls (recorded w w') = [.pcall f args (I.call f args before).1]
  passed : args[2]? = some (.userdata handle)
  fresh : w.heap.next ≤ handle ∧ handle < w'.heap.next
  earlier : Between none w.heap.host before.host
  during : Between (some ⟨handle, function, buffer⟩) before.host (I.call f args before).2.host
  later : Between none (I.call f args before).2.host w'.heap.host

theorem readdir_listed (hI : Confined filler I) (path : Path) (buffer function : Nat) (offset : CInt.off_t.Val)
    {ops : Value} (stk : List Value) {w : World (Host (Logged X)) Memory} {f : Value}
    (hf : (Callback.readdir path buffer function offset).handler I ops (tabled w.mem [.file_info] w.heap) = .ok f)
    (hnil : f ≠ .nil) (hs : InScope none w.heap.host) :
    InScope none (((callback I (.readdir path buffer function offset)).run (ops :: stk)).exec w).2.heap.host ∧
      ∃ args handle before, Listed I function buffer f args handle before w
        (((callback I (.readdir path buffer function offset)).run (ops :: stk)).exec w).2 := by
  obtain ⟨tables, w₁, hcalls, hheap, hheap'⟩ := readdir_called I path buffer function offset stk hf hnil
  have hlook := looked_up_logs hI (.readdir path buffer function offset) ops hs
  have hbefore : InScope (some ⟨(searched I ops w).next, function, buffer⟩)
      (readdir_heap I path buffer function offset ops tables w).host :=
    inScope_alloc_fill_dir hlook.inScope function buffer
  have hcall := hI.logs.1 f (readdir_args path offset ops (searched I ops w).next tables) _ hbefore
  rw [← hheap] at hcall
  have hreset : InScope none (resetted [(searched I ops w).next] w₁).heap.host := inScope_reset hcall.inScope
  have hlast := destructed_logs hI tables (stk.length + 1) hreset
  rw [← hheap'] at hlast
  have hcalled : (searched I ops w).next + 1 ≤ w₁.heap.next := by
    rw [hheap]
    exact (I.call_scripted f _ (readdir_heap I path buffer function offset ops tables w)).next
  have hfresh := (destruct_all_kept (lookups_keep_next I _) tables (stk.length + 1)
    (resetted [(searched I ops w).next] w₁) hcalled).1
  rw [← hheap'] at hfresh
  refine ⟨hlast.inScope, _, _, _, hcalls, rfl, ⟨?_, hfresh⟩, hlook.between, hheap ▸ hcall.between, ?_⟩
  · exact Nat.le_trans (tabled_next w.mem [.file_info] w.heap) (I.lookup_scripted ..).next
  · rw [← hheap]
    exact hlast.between

end

end DromozoaFuse.Operations
