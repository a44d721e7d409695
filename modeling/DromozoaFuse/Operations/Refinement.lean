import DromozoaFuse.Base.Run
import DromozoaFuse.Operations.Service

/-!
# Main results about services

Where scripts implement a service, the callbacks are that service: libfuse gets what the service says, however many
callbacks have come before.
-/

namespace DromozoaFuse.Operations

open Base Lua DromozoaFuse.Bind DromozoaFuse.Convert Fill

variable {X σ : Type} (I : Interp (Host X))

/-! ## Replies -/

theorem padded_eq {s : Bytes} {size : CInt.size_t.Val} {n : Nat} (h : n ≤ size.val.toNat) (buffer : Nat → UInt8) :
    memcpy (memset buffer 0 size.val.toNat) s n = padded (s.take n) size buffer := by
  funext i
  by_cases hi : i < n
  · rw [memcpy, padded, if_pos hi, if_pos (by omega)]
    simp [List.getD_eq_getElem?_getD, hi]
  · rw [memset_memcpy_of_le (Nat.le_of_not_lt hi), padded]
    simp [List.getD_eq_getElem?_getD, hi]

theorem Text.status (v : Text) : CInt.int.wrap v.bytes.length = v.length := CInt.wrap_val v.length

/-- The buffer is filled as the service says. -/
theorem Text.told_eq {v : Text} {o : Other} (hapt : (Content.text v).Apt o)
    (hroomy : ∀ size, o = .readlink size → 1 ≤ size.val) (hpos : ∀ size, o = .xattr size → size.val ≠ 0)
    (buffer : Nat → UInt8) : o.fill v.bytes buffer = v.told o buffer := by
  cases o with
  | readlink size =>
      have hn := readlink_length (hroomy size rfl)
      have hlen : (CInt.size_t.wrap (size.val - 1)).val.toNat = (size.val - 1).toNat := by omega
      simp only [Other.fill, told, hlen]
      rw [padded_eq (by omega), List.take_eq_take_min, Nat.min_assoc, Nat.min_self]
      rw [← List.take_eq_take_min]
  | read size =>
      have hle : v.bytes.length ≤ size.val.toNat := by
        change (v.bytes.length : Int) ≤ size.val at hapt
        omega
      simp only [Other.fill, told, v.status, Nat.min_eq_right hle, padded_eq hle, List.take_length]
  | xattr size =>
      have hnonneg := size.nonneg rfl
      have hval : v.length.val = v.bytes.length := rfl
      simp only [Other.fill, told, if_neg (hpos size rfl)]
      by_cases hlt : size.val < v.length.val
      · rw [if_pos hlt, if_pos (by omega)]
      · have hle : v.bytes.length ≤ size.val.toNat := by omega
        rw [if_neg hlt, if_neg (by omega), v.status, padded_eq hle, List.take_length]
  | nil d | stat | statvfs => exact absurd hapt (by simp [Content.Apt])

theorem Numbers.answer {n : CInt.int.Val} {reply : Except Value Value} (h : Numbers n reply) (o : Other)
    (w : World (Host X) Memory) : (o.answer I reply).exec w = (.ok n, w) := by
  obtain ⟨v, hreply, hv⟩ := h
  obtain ⟨i, hi, hn⟩ := Option.map_eq_some_iff.mp hv
  have hstatus : status v = some n := by
    rw [status, hi, Option.map_some, hn, CInt.wrap_val]
  rcases hreply with rfl | rfl <;> simp [Other.answer, hstatus]

theorem Text.answer {v : Text} {o : Other} (hapt : (Content.text v).Apt o)
    (hroomy : ∀ size, o = .readlink size → 1 ≤ size.val) (hpos : ∀ size, o = .xattr size → size.val ≠ 0)
    (w : World (Host X) Memory) :
    (o.answer I (.ok (.string v.bytes))).exec w = (.ok (v.told o w.mem.buffer).1,
      { w with mem := { w.mem with buffer := (v.told o w.mem.buffer).2 } }) := by
  rw [← Text.told_eq hapt hroomy hpos]
  cases o with
  | readlink size => exact (Other.readlink size).answer_string I rfl v.bytes w
  | read size => exact (Other.read size).answer_string I rfl v.bytes w
  | xattr size => exact (Other.xattr size).answer_string I rfl v.bytes w
  | nil d | stat | statvfs => exact absurd hapt (by simp [Content.Apt])

theorem Other.answer_table {o : Other} {r : Nat} {i : CInt.int.Val} {w w' : World (Host X) Memory}
    (h : (o.finish I (.table r)).exec w = (.ok (some i), w')) : (o.answer I (.ok (.table r))).exec w = (.ok i, w') :=
  Prog.exec_bind_of_ok h

/-- A reply that stands for a content is answered with it. -/
theorem Content.Replied.answer {content : Content} {o : Other} (hapt : content.Apt o)
    (hroomy : ∀ size, o = .readlink size → 1 ≤ size.val) {reply : Except Value Value} {w : World (Host X) Memory}
    (h : content.Replied I reply w.heap o) :
    ∃ w', (o.answer I reply).exec w = (.ok (content.told o w.mem).1, w') ∧ w'.mem = (content.told o w.mem).2 ∧
      w'.heap = w.heap := by
  cases content with
  | status i =>
      have hnumber : Numbers i reply → ∃ w', (o.answer I reply).exec w = (.ok i, w') ∧ w'.mem = w.mem ∧
          w'.heap = w.heap := fun hnumber => ⟨w, hnumber.answer I o w, rfl, rfl⟩
      cases o with
      | nil d =>
          rcases h with h | ⟨rfl, rfl⟩
          · exact hnumber h
          · exact ⟨w, rfl, rfl, rfl⟩
      | _ => exact hnumber h
  | text v =>
      cases o with
      | xattr size =>
          simp only [Replied] at h
          split at h
          · rename_i hzero
            refine ⟨w, ?_, ?_, rfl⟩
            · rw [h.answer I _ w, told, Text.told, if_pos hzero]
            · simp [told, Text.told, hzero]
          · rename_i hpos
            rw [h, v.answer I hapt hroomy fun n hn => by cases hn; exact hpos]
            exact ⟨_, rfl, rfl, rfl⟩
      | _ =>
          have h : reply = .ok (.string v.bytes) := h
          rw [h, v.answer I hapt hroomy fun n hn => by cases hn]
          exact ⟨_, rfl, rfl, rfl⟩
  | stat that =>
      cases o with
      | stat =>
          obtain ⟨r, rfl, hthat⟩ := h
          obtain ⟨w', hdecode, hmem, hheap⟩ := hthat.decode stat_ptr
          exact ⟨w', Other.answer_table I (Prog.exec_bind_of_ok hdecode), hmem, hheap⟩
      | _ => exact absurd hapt (by simp [Apt])
  | statvfs that =>
      cases o with
      | statvfs =>
          obtain ⟨r, rfl, hthat⟩ := h
          obtain ⟨w', hdecode, hmem, hheap⟩ := hthat.decode I statvfs_ptr
          exact ⟨w', Other.answer_table I (Prog.exec_bind_of_ok hdecode), hmem, hheap⟩
      | _ => exact absurd hapt (by simp [Apt])

theorem Finish.Replied.answer {content : Content} {finish : Finish}
    (hapt : ∀ o, finish = .reply o → content.Apt o)
    (hroomy : ∀ size, finish = .reply (.readlink size) → 1 ≤ size.val) {reply : Except Value Value}
    {w : World (Host X) Memory} (h : finish.Replied I reply w.heap content) :
    ∃ w', (finish.answer I reply).exec w = (.ok (finish.told content w.mem).1, w') ∧
      w'.mem = (finish.told content w.mem).2 ∧ w'.heap = w.heap := by
  cases finish with
  | reply o =>
      obtain ⟨w', hexec, hends⟩ := Content.Replied.answer I (hapt o rfl)
        (fun size hsize => hroomy size (congrArg Finish.reply hsize)) h
      exact ⟨w', Prog.exec_bind_of_ok hexec, hends⟩
  | init | destroy =>
      obtain ⟨v, rfl⟩ := h
      exact ⟨w, rfl, rfl, rfl⟩

theorem Finish.told_structs (content : Content) (finish : Finish) (m : Memory) (c : Converter) :
    c.ptr.get (finish.told content m).2 = c.ptr.get m := by
  cases finish with
  | reply o => cases content <;> cases c <;> rfl
  | init | destroy => rfl

theorem Invocation.roomy_readlink {inv : Invocation} (h : inv.Roomy) {size : CInt.size_t.Val}
    (hfinish : inv.callback.finish = .reply (.readlink size)) : 1 ≤ size.val := by
  cases inv <;> cases hfinish
  exact h

theorem Invocation.name_operation (inv : Invocation) : ∃ n : Operation, inv.callback.name = n.name := by
  rw [inv.name_eq]
  split
  · exact ⟨.lock, rfl⟩
  · exact ⟨inv.operation, rfl⟩

/-! ## Scripts -/

theorem tabled_scripts (m : Memory) (cs : List Converter) (h : Heap (Host X)) :
    (tabled m cs h).host.scripts = h.host.scripts := by
  induction cs generalizing h with
  | nil => rfl
  | cons c cs ih => exact ih (alloc h (c.table m))

theorem make_args_scripts (tables : Tables) (args : List Arg) (values : List Value) (handles : List Nat)
    (w : World (Host X) Memory) :
    ((make_args I tables args values handles).exec w).2.heap.host.scripts = w.heap.host.scripts := by
  induction args generalizing values handles w with
  | nil => rfl
  | cons arg args ih =>
      cases arg with
      | push d => exact ih (values ++ [d.value]) handles w
      | pushvalue c => exact ih (values ++ [tables.value c]) handles w
      | fill_dir function buffer =>
          rw [make_args, Prog.exec_bind_of_ok (make_fill_dir_exec function buffer w), ih]
          rfl
      | timespec t =>
          rw [make_args, Prog.exec_bind_of_ok (build_exec I w _), ih]
          rfl

theorem Grown.undisturbed {h h' : Heap (Host X)} (hg : Grown h h') (hscripts : h'.host.scripts = h.host.scripts) :
    Undisturbed h h' := ⟨hg.next, hg.tables, hg.registered, hscripts⟩

theorem reset_undisturbed (handles : List Nat) (w : World (Host X) Memory) :
    Undisturbed w.heap (resetted handles w).heap := ⟨Nat.le_refl _, fun _ _ => rfl, rfl, rfl⟩

/-! ## Structs -/

theorem WrittenBack.refl {t : Target} (that : Struct t.layout) : WrittenBack t [] that that where
  integer := fun _ _ _ h => by cases h
  text := fun _ _ _ h => by cases h
  kept := fun _ _ => rfl
  frame := fun _ _ _ => rfl

theorem settled_of_not_mem (structs : (c : Converter) → Struct c.target.layout) {c : Converter} {cs : List Converter}
    (h : c ∉ cs) (m : Memory) : c.ptr.get (settled structs cs m) = c.ptr.get m := by
  induction cs with
  | nil => rfl
  | cons d cs ih =>
      rw [List.mem_cons, not_or] at h
      rw [settled, List.foldr_cons, Converter.ptr_set_of_ne h.1]
      exact ih h.2

/-- A handler that leaves its arguments so leaves the table of every converter so. -/
theorem tables_left {tables : Tables} (hnodup : (tables.map Prod.fst).Nodup) {m : Memory}
    {structs : (c : Converter) → Struct c.target.layout} {h h' : Heap (Host X)} {args : List Arg} {vs : List Value}
    (hargs : List.Forall₂ (Arg.Denotes tables h) args vs) (hleft : List.Forall₂ (Arg.Left m structs h') args vs)
    {c : Converter} {t : Nat} (hct : (c, t) ∈ tables) (hc : .pushvalue c ∈ args) : c.Left m structs h' t := by
  have hvalue : tables.value c = .table t := by
    obtain ⟨before, after, rfl⟩ := List.append_of_mem hct
    simp only [List.map_append, List.map_cons, List.nodup_append] at hnodup
    have hlookup : (before ++ (c, t) :: after).lookup c = some t := by
      apply List.lookup_eq_some_iff.mpr ⟨before, after, rfl, fun p hp => ?_⟩
      simpa using (hnodup.2.2 p.1 (List.mem_map_of_mem hp) c List.mem_cons_self).symm
    simp [Tables.value, hlookup]
  induction hargs with
  | nil => cases hc
  | cons hd _ ih =>
      cases hleft with
      | cons hl hls =>
          rcases List.mem_cons.mp hc with rfl | hc
          · obtain ⟨t', hv, hl⟩ := hl
            obtain rfl : t = t' := Value.table.inj (hvalue.symm.trans (hd.symm.trans hv))
            exact hl
          · exact ih hls hc

/-- The destructors of tables that are left so write the structs. -/
theorem destruct_all_settled {m : Memory} {structs : (c : Converter) → Struct c.target.layout} (tables : Tables)
    (height : Nat) {w : World (Host X) Memory} (hnodup : (tables.map Prod.fst).Nodup)
    (hleft : ∀ p ∈ tables, p.1.Left m structs w.heap p.2) (hm : ∀ p ∈ tables, p.1.ptr.get w.mem = p.1.ptr.get m)
    (hnarrow : ∀ p ∈ tables, p.1.Narrow m) :
    ∃ w', (destruct_all I tables height).exec w = (.ok (), w') ∧
      w'.mem = settled structs (tables.map Prod.fst) w.mem ∧ w'.heap = w.heap := by
  induction tables generalizing height with
  | nil => exact ⟨w, rfl, rfl, rfl⟩
  | cons p tables ih =>
      obtain ⟨c, t⟩ := p
      obtain ⟨hc, hnodup⟩ := List.nodup_cons.mp hnodup
      obtain ⟨w₁, hexec, hmem, hheap⟩ := ih (height + 1) hnodup (fun p hp => hleft p (List.mem_cons_of_mem _ hp))
        (fun p hp => hm p (List.mem_cons_of_mem _ hp)) fun p hp => hnarrow p (List.mem_cons_of_mem _ hp)
      obtain ⟨hplain, assignments, hallowed, hfields, hwritten⟩ := hleft (c, t) List.mem_cons_self
      have hget : c.ptr.get w₁.mem = c.ptr.get m := by
        rw [hmem, settled_of_not_mem structs hc]
        exact hm (c, t) List.mem_cons_self
      rw [← hheap] at hplain hfields
      rw [c.assigned_fields] at hfields
      obtain ⟨out, w', hlast, hdestroyed⟩ := destroyed_plain I hallowed hplain hfields hget
        (.destructed (height + 1 : Int) (some (.table t)))
      have hnarrow : c.Narrow m := hnarrow (c, t) List.mem_cons_self
      cases hdestroyed with
      | refused hfits => exact absurd (hnarrow.fits assignments) hfits
      | @written that' _ hout hset hheap' hwritten' =>
          refine ⟨w', ?_, ?_, hheap'.trans hheap⟩
          · rw [destruct_all, Prog.exec_bind_of_ok hexec, hlast, hout]
          · rw [hset, hwritten'.unique hallowed hwritten, hmem]
            rfl

/-! ## Callbacks -/

/-- From a handler that has met an outcome on, a callback tells it. -/
theorem Callback.Called.settled {inv : Invocation} {ops : Value} {stk : List Value} {w w' : World (Host X) Memory}
    {f : Value} {tables : Tables} {vs : List Value} {handles : List Nat} {heap : Heap (Host X)}
    {out : Except Value (Returned × List Value)}
    (h : inv.callback.Called I ops stk w f tables vs handles heap out w') {o : Outcome}
    (hmet : o.Met I inv w.mem vs heap (I.call f (ops :: vs) (heap.share (ops :: vs))))
    (hapt : ∀ other, inv.callback.finish = .reply other → o.content.Apt other) (hroomy : inv.Roomy)
    (hfits : Fitting w.mem) :
    out = .ok ((o.answer inv w.mem).returned, ops :: stk) ∧ w'.mem = (o.answer inv w.mem).mem ∧
      w'.heap.host.filled = heap.host.filled ++ o.entries ∧
      Undisturbed (I.call f (ops :: vs) (heap.share (ops :: vs))).2 w'.heap := by
  have hnodup : (tables.map Prod.fst).Nodup := h.converters ▸ inv.converters_nodup
  obtain ⟨w₀, a, w₁, hmem₀, -, hheap₀, hanswer, hout⟩ := h.ends
  obtain ⟨w₂, hexec, hmem₂, hheap₂⟩ := Finish.Replied.answer I hapt (fun _ => inv.roomy_readlink hroomy)
    (hheap₀ ▸ hmet.replied)
  obtain ⟨rfl, rfl⟩ := Prod.mk.inj (hanswer.symm.trans hexec)
  rw [hmem₀] at hmem₂
  have hheap₁ := hheap₂.trans hheap₀
  have hleft : ∀ p ∈ tables, p.1.Left w.mem o.structs (resetted handles w₁).heap p.2 := by
    rintro ⟨c, t⟩ hct
    have hc : .pushvalue c ∈ inv.callback.args := by
      rw [← Invocation.mem_converters_iff, ← h.converters]
      exact List.mem_map_of_mem hct
    have hleft := hmet.left
    rw [← inv.args_eq] at hleft
    have hleft := tables_left hnodup h.args hleft hct hc
    rw [← hheap₁] at hleft
    exact hleft
  have hstructs : ∀ c : Converter, c.ptr.get w₁.mem = c.ptr.get w.mem := by
    intro c
    rw [hmem₂, Finish.told_structs]
  rcases hout with ⟨e, he, -⟩ | ⟨r, hr, hout, hmem, hheap, -⟩
  · cases he
  · cases hr
    obtain ⟨w₃, hdestruct, hmem₃, hheap₃⟩ := destruct_all_settled I tables (stk.length + 1) (w := resetted handles w₁)
      hnodup hleft (fun p _ => hstructs p.1) fun p _ => (p.1.narrow_iff w.mem).mpr fun _ => hfits
    rw [hdestruct] at hout hmem hheap
    refine ⟨?_, ?_, ?_, ?_⟩
    · rw [hout, hmem₀]
      rfl
    · rw [hmem, hmem₃, h.converters]
      exact congrArg (Operations.settled o.structs inv.callback.converters) hmem₂
    · rw [hheap, hheap₃, ← hmet.filled, ← hheap₁]
      rfl
    · rw [hheap, hheap₃, ← hheap₁]
      exact reset_undisturbed handles w₁

/-- What libfuse gets from a callback, with the stack that it leaves, and what becomes of the heap. -/
def respond (ops : Value) (stk : List Value) (h : Heap (Host X)) (a : Invocation × Memory) :
    Except Value (Answer × List Value) × Heap (Host X) :=
  let out := invoke I a.1 ops stk ⟨h, a.2, []⟩
  (out.1.map fun r => (⟨r.1, out.2.mem, out.2.heap.host.filled.drop h.host.filled.length⟩, r.2), out.2.heap)

/-- What becomes of a callback without a handler. -/
theorem callback_missing {inv : Invocation} {ops : Value} (stk : List Value) {w : World (Host X) Memory}
    (h : inv.callback.handler I ops (tabled w.mem inv.callback.converters w.heap) = .ok .nil) (hfits : Fitting w.mem) :
    (invoke I inv ops stk w).1 = .ok ((Outcome.missing w.mem |>.answer inv w.mem).returned, ops :: stk) ∧
      (invoke I inv ops stk w).2.mem = (Outcome.missing w.mem |>.answer inv w.mem).mem ∧
      (invoke I inv ops stk w).2.heap =
        (I.lookup ops (.string (bytes inv.callback.name)) (tabled w.mem inv.callback.converters w.heap)).2 := by
  have hplays := inv.callback.scope_plays I inv.converters_nodup ops (stk.length + 1) (opened (ops :: stk) w)
  have hscripted : (tabled w.mem inv.callback.converters w.heap).Scripted
      (I.lookup ops (.string (bytes inv.callback.name)) (tabled w.mem inv.callback.converters w.heap)).2 :=
    I.lookup_scripted ..
  rw [invoke, callback_exec I inv.callback_counted]
  rcases hresult : (inv.callback.scope I (stk.length + 1) ops).exec (opened (ops :: stk) w) with ⟨out, w'⟩
  rw [hresult] at hplays
  obtain ⟨tables, a, w₁, hfst, hencodes, hends, -, -, hout⟩ := hplays.tail
  cases hends with
  | raised h' => exact absurd (h.symm.trans h') (by simp)
  | called h' hf => exact absurd (Except.ok.inj (h.symm.trans h')).symm hf
  | missing h' =>
      rcases hout with ⟨e, he, -⟩ | ⟨r, hr, hout, hmem, hheap, -⟩
      · cases he
      · cases hr
        have hencodes := hencodes.scripted hscripted
        have hleft : ∀ p ∈ tables, p.1.Left w.mem (fun c => c.ptr.get w.mem)
            (inv.callback.looked_up I ops
              (inv.callback.prepared tables (stk.length + 1) (opened (ops :: stk) w))).heap p.2 := by
          rintro ⟨c, t⟩ hct
          have htable : (inv.callback.looked_up I ops (inv.callback.prepared tables (stk.length + 1)
              (opened (ops :: stk) w))).heap.tables t = c.table w.mem := (hencodes (c, t) hct).2
          rw [Converter.Left, htable]
          exact ⟨assign_all_metatable _ _, [], by simp, rfl, WrittenBack.refl _⟩
        obtain ⟨w₂, hdestruct, hmem₂, hheap₂⟩ := destruct_all_settled I tables (stk.length + 1)
          (hfst ▸ inv.converters_nodup) hleft (fun _ _ => rfl) fun p _ => (p.1.narrow_iff w.mem).mpr fun _ => hfits
        rw [hdestruct] at hout hmem hheap
        refine ⟨?_, ?_, hheap.trans hheap₂⟩
        · rw [hout]
          cases hfinish : inv.callback.finish <;> simp [Outcome.answer, Finish.told, hfinish] <;> rfl
        · rw [hmem, hmem₂, hfst]
          cases hfinish : inv.callback.finish <;> simp [Outcome.answer, Finish.told, hfinish] <;> rfl

theorem respond_eq {inv : Invocation} {ops : Value} {stk : List Value} {h : Heap (Host X)} {m : Memory} {o : Outcome}
    (hout : (invoke I inv ops stk ⟨h, m, []⟩).1 = .ok ((o.answer inv m).returned, ops :: stk))
    (hmem : (invoke I inv ops stk ⟨h, m, []⟩).2.mem = (o.answer inv m).mem)
    (hfilled : (invoke I inv ops stk ⟨h, m, []⟩).2.heap.host.filled = h.host.filled ++ o.entries) :
    (respond I ops stk h (inv, m)).1 = .ok (o.answer inv m, ops :: stk) := by
  simp only [respond, hout, hmem, hfilled, List.drop_left]
  rfl

/-- One callback is one step of the service. -/
theorem Implements.respond {A : Service σ} {ops : Value} {R : Heap (Host X) → σ → Prop} (himpl : Implements I ops R A)
    {h : Heap (Host X)} {s : σ} (hR : R h s) {inv : Invocation} (hroomy : inv.Roomy) {m : Memory} (hfits : Fitting m)
    (stk : List Value) :
    (Operations.respond I ops stk h (inv, m)).1 = .ok ((A.answer s (inv, m)).1, ops :: stk) ∧
      R (Operations.respond I ops stk h (inv, m)).2 (A.answer s (inv, m)).2 := by
  obtain ⟨-, -, -, hgrown, -⟩ := construct_all_exec I inv.callback.converters 0 ⟨h, m, []⟩
  have htabled := himpl.undisturbed _ _ _ hR (hgrown.undisturbed (tabled_scripts m _ h))
  obtain ⟨n, hn⟩ := inv.name_operation
  obtain ⟨f, hf, hlooked, hquiet⟩ := himpl.found _ _ htabled n
  rw [← hn] at hf hlooked hquiet
  by_cases hnil : f = .nil
  · subst hnil
    obtain ⟨hout, hmem, hheap⟩ := callback_missing I stk (w := ⟨h, m, []⟩) hf hfits
    have hserve := himpl.missing _ _ htabled inv hf m
    have hfilled : (invoke I inv ops stk ⟨h, m, []⟩).2.heap.host.filled =
        h.host.filled ++ (Outcome.missing m).entries := by
      rw [hheap, hquiet, hgrown.filled]
      exact (List.append_nil _).symm
    refine ⟨?_, ?_⟩
    · rw [respond_eq I hout hmem hfilled, Service.answer, hserve]
    · change R (invoke I inv ops stk ⟨h, m, []⟩).2.heap _
      rw [hheap, Service.answer, hserve]
      exact hlooked
  · obtain ⟨tables, vs, handles, heap, hcalled⟩ :=
      callback_called I inv.callback_counted inv.converters_nodup stk hf hnil
    have hscripts := make_args_scripts I tables inv.callback.args [ops] []
      (inv.callback.looked_up I ops (inv.callback.prepared tables (stk.length + 1) (opened (ops :: stk) ⟨h, m, []⟩)))
    rw [hcalled.made] at hscripts
    have hheap := himpl.undisturbed _ _ _ hlooked (hcalled.grown.undisturbed hscripts)
    have hpassed := inv.passed hcalled.converters hcalled.encodes hcalled.args
    obtain ⟨hmet, hR'⟩ := himpl.called _ _ htabled inv m hroomy hfits f heap vs hf hnil hcalled.grown hheap hpassed
    obtain ⟨hout, hmem, hfilled, hundisturbed⟩ := hcalled.settled I hmet (A.apt inv m s) hroomy hfits
    refine ⟨respond_eq I hout hmem ?_, himpl.undisturbed _ _ _ hR' hundisturbed⟩
    rw [invoke, hfilled, hcalled.grown.filled, hquiet, hgrown.filled]

/-- Where scripts implement a service, the callbacks are that service: whatever libfuse asks for, one callback after
the other, it gets the statuses, the contents and the names that the service has for it, the structs are as the service
leaves them, and nothing else of the memory changes. -/
theorem service_refined {A : Service σ} {ops : Value} {R : Heap (Host X) → σ → Prop} (himpl : Implements I ops R A)
    {h : Heap (Host X)} {s : σ} (hR : R h s) (stk : List Value) {calls : List (Invocation × Memory)}
    (hcalls : ∀ a ∈ calls, a.1.Roomy ∧ Fitting a.2) :
    (answers (respond I ops stk) h calls).1 = (answers A.answer s calls).1.map (fun b => .ok (b, ops :: stk)) ∧
      R (answers (respond I ops stk) h calls).2 (answers A.answer s calls).2 :=
  answers_simulated (R := R) (fun a ha _ _ hR => himpl.respond I hR (hcalls a ha).1 (hcalls a ha).2 stk) hR

/-! ## One attribute -/

/-- A handler that leaves the tables among its arguments alone leaves the structs as they are. -/
theorem passed_left {m : Memory} {h h' : Heap (Host X)} {args : List Arg} {vs all : List Value}
    (hpassed : List.Forall₂ (Arg.Passed m h) args vs) (hall : ∀ v ∈ vs, v ∈ all)
    (hsame : ∀ t, .table t ∈ vs → h'.tables t = (h.share all).tables t) :
    List.Forall₂ (Arg.Left m (fun c => c.ptr.get m) h') args vs := by
  induction hpassed with
  | nil => exact .nil
  | @cons arg v args vs hd _ ih =>
      refine .cons ?_ (ih (fun v hv => hall v (List.mem_cons_of_mem _ hv))
        fun t ht => hsame t (List.mem_cons_of_mem _ ht))
      cases arg with
      | pushvalue c =>
          obtain ⟨t, rfl, htable⟩ := hd
          have hleft : h'.tables t = c.assigned m [] := by
            rw [hsame t List.mem_cons_self]
            simp [Heap.share, hall _ List.mem_cons_self, htable, Converter.assigned, Converter.passed, assign_all]
          refine ⟨t, rfl, ?_⟩
          rw [Converter.Left, hleft]
          exact ⟨c.assigned_metatable m [], [], by simp, rfl, WrittenBack.refl _⟩
      | _ => trivial

def ENODATA : CInt.int.Val := CInt.int.wrap (-61)

def Text.of? (s : Bytes) : Option Text :=
  if small : CInt.int.Mem s.length then some ⟨s, small⟩ else none

def sized (v : Text) : Struct Convert.stat := assign zero .st_size v.length.val

def saying (content : Content) (m : Memory) : Outcome := ⟨content, fun c => c.ptr.get m, []⟩

def set_value (data : Bytes) (s : Option Text) : Content × Option Text :=
  match Text.of? data with
  | some v => (.status (CInt.int.wrap 0), some v)
  | none => (.status ENOSYS, s)

def value_of : Option Text → Content
  | some v => .text v
  | none => .status ENODATA

def size_of : Option Text → Content
  | some v => .stat (sized v)
  | none => .status ENOSYS

/-- A file system with one attribute, whatever its name, that is also what the size of a file is about. -/
def one_attribute : Service (Option Text) where
  serve
    | .setxattr _ _ buffer size _, m, s =>
        let (content, s) := set_value (string_reference buffer size) s
        (saying content m, s)
    | .getxattr .., m, s => (saying (value_of s) m, s)
    | .getattr _, m, s => (saying (size_of s) m, s)
    | _, m, s => (.missing m, s)
  apt := by
    intro inv m s o ho
    split
    · unfold set_value
      dsimp only
      split <;> trivial
    · cases ho
      cases s <;> trivial
    · cases ho
      cases s <;> trivial
    · trivial

def status_value (i : CInt.int.Val) : Value := .integer (CInt.int64_t.wrap i.val)

def set_attribute (data : Bytes) (h : Heap (Host (Option Text))) : Except Value Value × Heap (Host (Option Text)) :=
  match Text.of? data with
  | some v => (.ok .nil, { h with host := { h.host with scripts := some v } })
  | none => (.ok (status_value ENOSYS), h)

def get_attribute (size : Option Value) (h : Heap (Host (Option Text))) : Except Value Value :=
  match h.host.scripts with
  | some v =>
      if size = some (.integer (CInt.int64_t.wrap 0)) then .ok (status_value v.length) else .ok (.string v.bytes)
  | none => .error (status_value ENODATA)

def size_fields (v : Text) (k : Bytes) : Value := if k = bytes "st_size" then status_value v.length else .nil

def get_size (h : Heap (Host (Option Text))) : Except Value Value × Heap (Host (Option Text)) :=
  match h.host.scripts with
  | some v => (.ok (.table h.next), alloc h ⟨size_fields v, false, true⟩)
  | none => (.error (status_value ENOSYS), h)

/-- Scripts with three handlers: function 1 sets the attribute, 2 gets it, and 3 is for the attributes of a file. -/
def keeping : Interp (Host (Option Text)) :=
  { Interp.idle with
    call := fun f args h =>
      match f, args with
      | .function 1, [_, _, _, .string data, _, _] => set_attribute data h
      | .function 2, args => (get_attribute args[3]? h, h)
      | .function 3, _ => get_size h
      | _, _ => (.ok .nil, h)
    call_scripted := by
      intro f args h
      split
      · unfold set_attribute
        split <;> exact ⟨Nat.le_refl _, fun _ _ _ => rfl⟩
      · exact .refl h
      · unfold get_size
        split
        · exact ⟨Nat.le_succ _, fun r hr _ => (alloc_grown h _).tables r hr⟩
        · exact .refl h
      · exact .refl h }

def keeping_fields (k : Bytes) : Value :=
  if k = bytes "setxattr" then .function 1
  else if k = bytes "getxattr" then .function 2
  else if k = bytes "getattr" then .function 3
  else .nil

/-- The handlers are in table 0, and the scripts keep the attribute. -/
def Kept (h : Heap (Host (Option Text))) (s : Option Text) : Prop :=
  h.host.scripts = s ∧ (h.tables 0).fields = keeping_fields ∧ (h.tables 0).metatable = false ∧ 0 < h.next

def keeping_handler : Operation → Value
  | .setxattr => .function 1
  | .getxattr => .function 2
  | .getattr => .function 3
  | _ => .nil

theorem Kept.lookup {h : Heap (Host (Option Text))} {s : Option Text} (hk : Kept h s) (n : Operation) :
    keeping.lookup (.table 0) (.string (bytes n.name)) h = (.ok (keeping_handler n), h) := by
  have hfields : keeping_fields (bytes n.name) = keeping_handler n := by cases n <;> decide +kernel
  rw [lookup_plain keeping hk.2.2.1, hk.2.1, hfields]

theorem Kept.handler {h : Heap (Host (Option Text))} {s : Option Text} (hk : Kept h s) (inv : Invocation) :
    keeping.lookup (.table 0) (.string (bytes inv.callback.name)) h = (.ok (keeping_handler inv.operation), h) := by
  rw [inv.name_eq]
  split
  · rename_i hflock
    rw [hflock]
    exact hk.lookup .lock
  · exact hk.lookup inv.operation

theorem Kept.share {h : Heap (Host (Option Text))} {s : Option Text} (hk : Kept h s) (vs : List Value) :
    Kept (h.share vs) s := by
  refine ⟨hk.1, ?_, ?_, hk.2.2.2⟩
  · simp only [Heap.share]
    split <;> exact hk.2.1
  · simp only [Heap.share]
    split <;> exact hk.2.2.1

theorem Kept.undisturbed {h h' : Heap (Host (Option Text))} {s : Option Text} (hk : Kept h s)
    (hu : Undisturbed h h') : Kept h' s := by
  rw [Kept, hu.scripts, hu.tables 0 hk.2.2.2]
  exact ⟨hk.1, hk.2.1, hk.2.2.1, Nat.lt_of_lt_of_le hk.2.2.2 hu.next⟩

theorem integer?_status_value (i : CInt.int.Val) : (integer? (status_value i)).map CInt.Val.val = some i.val := by
  have hmem : CInt.int64_t.Mem i.val := i.mem.widen (by decide)
  simp [status_value, Value.integer, integer?, Number.toInteger?, CInt.wrap_of_mem hmem]

theorem numbers_status (i : CInt.int.Val) {reply : Except Value Value}
    (h : reply = .ok (status_value i) ∨ reply = .error (status_value i)) : Numbers i reply :=
  ⟨_, h, integer?_status_value i⟩

theorem sized_statOf (v : Text) (h : Heap (Host (Option Text))) :
    StatOf keeping (alloc h ⟨size_fields v, false, true⟩) h.next (sized v) := by
  have hkey : ∀ k : stat_member, k ∈ attributes → key (S := Convert.stat) k = bytes "st_size" → k = .st_size := by
    intro k hk
    simp only [attributes, List.mem_cons, List.not_mem_nil, or_false] at hk
    rcases hk with rfl | rfl | rfl | rfl | rfl | rfl | rfl | rfl | rfl <;>
      first | exact fun _ => rfl | exact fun h => absurd h (by decide +kernel)
  have htime : ∀ s : Stamp, ∀ k ∈ s.keys, k ≠ bytes "st_size" := by
    intro s
    cases s <;> decide +kernel
  have hsize : size_fields v (key (S := Convert.stat) .st_size) = status_value v.length := if_pos rfl
  have hother : ∀ {k : stat_member}, k ≠ .st_size → sized v k = zero (S := Convert.stat) k :=
    fun hk => assign_of_ne _ hk _
  have hzero : ∀ k : stat_member, (zero (S := Convert.stat) k).val = 0 :=
    fun k => CInt.wrap_of_mem (CInt.zero_mem (Convert.stat.bits_pos k))
  refine ⟨size_fields v, fun _ => none, ⟨Answers.of_plain ?_, fun k hk => ?_, fun s => ?_⟩,
    ⟨?_, ?_, hzero .st_rdev, ?_⟩⟩
  · rintro _ rfl
    simp
  · by_cases hks : key (S := Convert.stat) k = bytes "st_size"
    · obtain rfl := hkey k hk hks
      exact Or.inr ⟨_, hsize, (CInt.int64_t.wrap v.length.val).mem⟩
    · exact Or.inl (if_neg hks)
  · exact .absent fun k hk => if_neg (htime s k hk)
  · intro k hk i hi
    by_cases hks : key (S := Convert.stat) k = bytes "st_size"
    · obtain rfl := hkey k hk hks
      obtain rfl : CInt.int64_t.wrap v.length.val = i := by
        simpa [status_value, Value.integer] using hsize.symm.trans hi
      exact congrArg CInt.Val.val (assign_self (S := Convert.stat) zero .st_size v.length.val)
    · rw [size_fields, if_neg hks] at hi
      cases hi
  · intro k hk hnil
    rw [hother, hzero]
    rintro rfl
    rw [hsize] at hnil
    cases hnil
  · intro s
    funext k
    cases s <;> exact hother (by simp)

theorem saying_met {content : Content} {inv : Invocation} {m : Memory} {args : List Value}
    {h : Heap (Host (Option Text))} {out : Except Value Value × Heap (Host (Option Text))}
    (hpassed : List.Forall₂ (Arg.Passed m h) (inv.parameters.flatMap Parameter.args) args)
    (hreplied : inv.callback.finish.Replied keeping out.1 out.2 content)
    (htables : ∀ t, .table t ∈ args → out.2.tables t = (h.share (.table 0 :: args)).tables t)
    (hfilled : out.2.host.filled = h.host.filled) : (saying content m).Met keeping inv m args h out where
  replied := hreplied
  left := passed_left hpassed (fun _ hv => List.mem_cons_of_mem _ hv) htables
  filled := by simpa [saying] using hfilled

theorem set_attribute_replied {h : Heap (Host (Option Text))} {s : Option Text} (hk : Kept h s) (data : Bytes) :
    (set_value data s).1.Replied keeping (set_attribute data h).1 (set_attribute data h).2
        (.nil (CInt.int.wrap 0)) ∧
      Kept (set_attribute data h).2 (set_value data s).2 ∧ (set_attribute data h).2.tables = h.tables ∧
      (set_attribute data h).2.host.filled = h.host.filled := by
  unfold set_value set_attribute
  cases Text.of? data with
  | some v => exact ⟨Or.inr ⟨rfl, rfl⟩, ⟨rfl, hk.2⟩, rfl, rfl⟩
  | none => exact ⟨Or.inl (numbers_status ENOSYS (Or.inl rfl)), hk, rfl, rfl⟩

theorem get_attribute_replied {h : Heap (Host (Option Text))} {s : Option Text} (hk : Kept h s)
    (size : CInt.size_t.Val) :
    (value_of s).Replied keeping (get_attribute (some (.integer (CInt.int64_t.wrap size.val))) h) h
      (.xattr size) := by
  unfold get_attribute
  rw [hk.1]
  cases s with
  | none => exact numbers_status ENODATA (Or.inr rfl)
  | some v =>
      simp only [Option.some.injEq, wrap_eq_zero_iff, value_of, Content.Replied]
      split
      · exact numbers_status v.length (Or.inl rfl)
      · rfl

theorem get_size_replied {h : Heap (Host (Option Text))} {s : Option Text} (hk : Kept h s) :
    (size_of s).Replied keeping (get_size h).1 (get_size h).2 .stat ∧ Kept (get_size h).2 s ∧
      (get_size h).2.host = h.host := by
  unfold get_size
  rw [hk.1]
  cases s with
  | none => exact ⟨numbers_status ENOSYS (Or.inr rfl), hk, rfl⟩
  | some v =>
      refine ⟨⟨h.next, rfl, sized_statOf v h⟩, ?_, rfl⟩
      exact hk.undisturbed ((alloc_grown h _).undisturbed rfl)

theorem keeping_implements : Implements keeping (.table 0) Kept one_attribute where
  undisturbed _ _ _ hk hu := hk.undisturbed hu
  found h s hk n := by
    rw [hk.lookup]
    exact ⟨_, rfl, hk, rfl⟩
  missing h s hk inv hnil m := by
    rw [hk.handler] at hnil
    cases inv <;> first | rfl | cases hnil
  called h s hk inv m hroomy _ f h₁ args hf hnil _ hk₁ hpassed := by
    rw [hk.handler] at hf
    cases hf
    have hk' : Kept (h₁.share (.table 0 :: args)) s := hk₁.share _
    have hargs := hpassed
    cases inv with
    | setxattr path name buffer size flags =>
        simp only [Invocation.parameters, Parameter.args, List.flatMap_cons, List.flatMap_nil, List.append_nil,
          List.cons_append, List.nil_append, List.forall₂_cons_left_iff, List.forall₂_nil_left_iff] at hargs
        obtain ⟨_, _, rfl, ⟨_, _, rfl, ⟨_, _, rfl, ⟨_, _, rfl, ⟨_, _, rfl, rfl, rfl⟩, rfl⟩, rfl⟩, rfl⟩, rfl⟩ := hargs
        obtain ⟨hreplied, hkept, htables, hfilled⟩ := set_attribute_replied hk' (string_reference buffer size)
        exact ⟨saying_met hpassed hreplied (fun t _ => congrFun htables t) hfilled, hkept⟩
    | getxattr path name size =>
        simp only [Invocation.parameters, Parameter.args, List.flatMap_cons, List.flatMap_nil, List.append_nil,
          List.cons_append, List.nil_append, List.forall₂_cons_left_iff, List.forall₂_nil_left_iff] at hargs
        obtain ⟨_, _, rfl, ⟨_, _, rfl, ⟨_, _, rfl, ⟨_, _, rfl, rfl, rfl⟩, rfl⟩, rfl⟩, rfl⟩ := hargs
        exact ⟨saying_met hpassed (get_attribute_replied hk' size) (fun _ _ => rfl) rfl, hk'⟩
    | getattr path =>
        simp only [Invocation.parameters, Parameter.args, List.flatMap_cons, List.flatMap_nil, List.append_nil,
          List.forall₂_cons_left_iff, List.forall₂_nil_left_iff] at hargs
        obtain ⟨_, _, rfl, rfl, rfl⟩ := hargs
        obtain ⟨hreplied, hkept, hhost⟩ := get_size_replied hk'
        have hpath : ∀ t, Value.table t ∉ [(Datum.cstr path).value] := by
          intro t ht
          cases path <;> cases List.mem_singleton.mp ht
        exact ⟨saying_met hpassed hreplied (fun t ht => absurd ht (hpath t)) (congrArg Host.filled hhost), hkept⟩
    | _ => exact absurd rfl hnil

def kept_heap : Heap (Host (Option Text)) :=
  ⟨fun _ => ⟨keeping_fields, false, true⟩, 1, ⟨fun _ => none, true, [], none⟩⟩

theorem kept_heap_kept : Kept kept_heap none := ⟨rfl, rfl, rfl, by decide⟩

/-- Set the attribute to three bytes with a NUL, ask for its length, get it, and ask for the size of the file. -/
def set_and_get : List (Invocation × Memory) :=
  let path := some (bytes "/")
  let name := some (bytes "user.n")
  [(.setxattr path name (fun i => if i = 1 then 0 else 97) (CInt.size_t.wrap 3) (CInt.int.wrap 0), .zeroed),
    (.getxattr path name (CInt.size_t.wrap 0), .zeroed), (.getxattr path name (CInt.size_t.wrap 3), .zeroed),
    (.getattr path, .zeroed)]

def seen_of (b : Except Value (Answer × List Value)) : Option (Returned × Bytes × Int) :=
  b.toOption.map fun b => (b.1.returned, contents b.1.mem.buffer 3, (b.1.mem.stat .st_size).val)

theorem service_refined_set_and_get :
    (answers (respond keeping (.table 0) []) kept_heap set_and_get).1.map seen_of =
      [some (.int (CInt.int.wrap 0), [0, 0, 0], 0), some (.int (CInt.int.wrap 3), [0, 0, 0], 0),
        some (.int (CInt.int.wrap 3), [97, 0, 97], 0), some (.int (CInt.int.wrap 0), [0, 0, 0], 3)] := by
  have hcalls : ∀ a ∈ set_and_get, a.1.Roomy ∧ Fitting a.2 := by
    intro a ha
    have hfits : Fitting .zeroed := by
      unfold Fitting
      decide
    simp only [set_and_get, List.mem_cons, List.not_mem_nil, or_false] at ha
    rcases ha with rfl | rfl | rfl | rfl <;> exact ⟨trivial, hfits⟩
  rw [(service_refined keeping keeping_implements kept_heap_kept [] hcalls).1]
  decide +kernel

end DromozoaFuse.Operations
