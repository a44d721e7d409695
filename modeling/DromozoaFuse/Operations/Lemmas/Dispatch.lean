import DromozoaFuse.Convert.Lemmas.WriteBack
import DromozoaFuse.Operations.Lemmas.Course

/-!
# Installation and dispatch

The look-ups of the constructor, the tables of a callback that has called nobody, and the parameters of
the callbacks as `struct fuse_operations` declares them.
-/

namespace DromozoaFuse.Operations

open Base Lua DromozoaFuse.Bind DromozoaFuse.Convert Fill

variable {X : Type} (I : Interp (Host X))

/-! ## Installation -/

/-- One `DROMOZOA_SET_OPERATION` without the stack. -/
def considering (ops : Value) (slots : Slots) (n : Operation) : StatelessM X Slots := do
  let v ← I.gettable ops (.string (bytes n.name))
  return if v = .nil then slots else slots.set n

theorem check_run (name : String) (ops : Value) (stk : List Value) :
    (check I name : OpM X Bool).run (ops :: stk) =
      (fun v => (decide (v ≠ .nil), ops :: stk)) <$> I.gettable ops (.string (bytes name)) := by
  have hget := luaX_get_field_run I (slot_top ops stk) (bytes name) (M := Memory)
  simp [check, hget]

theorem SET_OPERATION_run (slots : Slots) (n : Operation) (ops : Value) (stk : List Value) :
    (SET_OPERATION I slots n : OpM X Slots).run (ops :: stk) =
      (fun s => (s, ops :: stk)) <$> considering I ops slots n := by
  have hbranch : ∀ v : Value, (if decide (v ≠ .nil) = true then pure (slots.set n)
      else pure slots : OpM X Slots).run (ops :: stk) =
      pure (if v = .nil then slots else slots.set n, ops :: stk) := by
    intro v
    by_cases hv : v = .nil <;> simp [hv]
  simp only [SET_OPERATION, considering, StateT.run_bind, check_run, bind_map_left, hbranch]
  simp

theorem considered_run (ns : List Operation) (slots : Slots) (ops : Value) (stk : List Value) :
    (ns.foldlM (SET_OPERATION I) slots : OpM X Slots).run (ops :: stk) =
      (fun s => (s, ops :: stk)) <$> ns.foldlM (considering I ops) slots := by
  induction ns generalizing slots with
  | nil => simp
  | cons n ns ih => simp [SET_OPERATION_run, ih]

/-- The slots that are set in any case. -/
def unconditional : Slots := (Slots.set (fun _ => none) .init).set .destroy

theorem operations_run (ops : Value) (stk : List Value) :
    (operations I : OpM X Slots).run (ops :: stk) =
      (fun s => (s, ops :: stk)) <$> (do
        record (.opened (ops :: stk))
        let s ← considered.foldlM (considering I ops) unconditional
        record (.closed (ops :: stk))
        return s) := by
  have hrun := considered_run I considered unconditional ops stk
  have hset := lua_settop_run (H := Host X) (M := Memory) (ops :: stk) []
  simp only [List.length_cons, Nat.cast_add, Nat.cast_one, List.nil_append] at hset
  simp only [unconditional] at hrun ⊢
  simp [operations, managed_state, hrun, hset]

def considered_event (ops : Value) (answers : Operation → Value) (n : Operation) : Event :=
  .read ops (.string (bytes n.name)) (.ok (answers n))

theorem considering_exec {ns : List Operation} (hnodup : ns.Nodup) (ops : Value) (slots : Slots)
    (w : World (Host X) Memory) :
    (∃ answers slots' h, (ns.foldlM (considering I ops) slots).exec w =
        (.ok slots', { w with heap := h, trace := w.trace ++ ns.map (considered_event ops answers) }) ∧
      ∀ n, slots' n = if n ∈ ns ∧ answers n ≠ .nil then some n else slots n) ∨
    ∃ e w' ev n, (ns.foldlM (considering I ops) slots).exec w = (.error e, w') ∧ n ∈ ns ∧
      w'.trace = w.trace ++ ev ∧ .read ops (.string (bytes n.name)) (.error e) ∈ ev := by
  induction ns generalizing slots w with
  | nil => exact Or.inl ⟨fun _ => .nil, slots, w.heap, by simp, by simp⟩
  | cons n ns ih =>
      obtain ⟨hn, hnodup⟩ := List.nodup_cons.mp hnodup
      have hget := gettable_exec I ops (.string (bytes n.name)) w
      rw [List.foldlM_cons]
      cases hlookup : (I.lookup ops (.string (bytes n.name)) w.heap).1 with
      | error e =>
          rw [hlookup] at hget
          have hfirst : (considering I ops slots n).exec w =
              (.error e, answered I w ops (.string (bytes n.name))) := Prog.exec_bind_of_error hget
          refine Or.inr ⟨e, answered I w ops (.string (bytes n.name)),
            [.read ops (.string (bytes n.name)) (.error e)], n, Prog.exec_bind_of_error hfirst, by simp, ?_, by simp⟩
          simp [answered, hlookup]
      | ok v =>
          rw [hlookup] at hget
          have hfirst : (considering I ops slots n).exec w =
              (.ok (if v = .nil then slots else slots.set n), answered I w ops (.string (bytes n.name))) :=
            Prog.exec_bind_of_ok hget
          rw [Prog.exec_bind_of_ok hfirst]
          have htr : (answered I w ops (.string (bytes n.name))).trace =
              w.trace ++ [.read ops (.string (bytes n.name)) (.ok v)] := by simp [answered, hlookup]
          rcases ih hnodup (if v = .nil then slots else slots.set n)
            (answered I w ops (.string (bytes n.name))) with
            ⟨answers, slots', h, hexec, hslots⟩ | ⟨e, w', ev, m, hexec, hm, htr', he⟩
          · refine Or.inl ⟨Function.update answers n v, slots', h, ?_, ?_⟩
            · have hmap : ns.map (considered_event ops (Function.update answers n v)) =
                  ns.map (considered_event ops answers) := by
                refine List.map_congr_left fun m hm => ?_
                rw [considered_event, Function.update_of_ne fun h : m = n => hn (h ▸ hm)]
                rfl
              rw [hexec, htr, List.map_cons, hmap, considered_event, Function.update_self]
              simp [answered]
            · intro m
              rw [hslots m]
              by_cases hm : m = n
              · subst hm
                by_cases hv : v = .nil <;> simp [hn, hv, Slots.set]
              · by_cases hv : v = .nil <;> simp [hm, hv, Slots.set]
          · exact Or.inr ⟨e, w', .read ops (.string (bytes n.name)) (.ok v) :: ev, m, hexec,
              List.mem_cons_of_mem _ hm, by rw [htr', htr]; simp, List.mem_cons_of_mem _ he⟩

/-! ## Tables that nobody has got -/

theorem Converter.flat (c : Converter) : ∀ s ∈ c.target.steps, s.isFlat = true := by
  cases c with
  | conn_info => exact (by decide : ∀ s ∈ conn_info_steps, s.isFlat = true)
  | file_info => exact (by decide : ∀ s ∈ file_info_steps, s.isFlat = true)
  | flock => exact (by decide : ∀ s ∈ flock_steps, s.isFlat = true)

/-- The members that come back from an untouched table are 64-bit integers. -/
def Converter.Narrow (m : Memory) (c : Converter) : Prop :=
  ∀ k, .OPT_FIELD k ∈ c.target.steps → CInt.int64_t.Mem (c.ptr.get m k).val

theorem Converter.accepts_iff (m : Memory) (c : Converter) :
    Accepts I c.target.steps (c.table m).fields (c.ptr.get m) ↔ c.Narrow m := by
  have hfields : (c.table m).fields = fields_after c.target [] (c.ptr.get m) := by
    funext key
    rw [table, assign_all_fields]
    rfl
  rw [hfields, Convert.accepts_iff I c.flat (by simp)]
  simp [Narrow, last_assigned]

theorem destruct_all_untouched {m : Memory} (tables : Tables) (height : Nat) {w : World (Host X) Memory}
    (hnodup : (tables.map Prod.fst).Nodup) (hencodes : Encodes m w.heap tables)
    (hm : ∀ c ∈ tables.map Prod.fst, c.ptr.get w.mem = c.ptr.get m) :
    ((∃ u, ((destruct_all I tables height).exec w).1 = .ok u) ↔ ∀ c ∈ tables.map Prod.fst, c.Narrow m) ∧
      ((destruct_all I tables height).exec w).2.heap = w.heap := by
  induction tables generalizing height w with
  | nil => exact ⟨iff_of_true ⟨(), rfl⟩ (by simp), rfl⟩
  | cons p tables ih =>
      obtain ⟨c, r⟩ := p
      simp only [List.map_cons, List.nodup_cons] at hnodup
      obtain ⟨hiff, hheap⟩ := ih (height + 1) (w := w) hnodup.2
        (fun p hp => hencodes p (List.mem_cons_of_mem _ hp)) fun d hd => hm d (List.mem_cons_of_mem _ hd)
      obtain ⟨ev, hd⟩ := destruct_all_destructs I m tables (height + 1) w hnodup.2
        fun d hd => hm d (List.mem_cons_of_mem _ hd)
      simp only [List.map_cons, List.forall_mem_cons]
      unfold destruct_all
      rcases hx : (destruct_all I tables (height + 1)).exec w with ⟨e | ⟨⟩, w₁⟩
      · rw [hx] at hiff hheap
        rw [Prog.exec_bind_of_error hx]
        refine ⟨iff_of_false ?_ fun h => ?_, hheap⟩
        · rintro ⟨u, hu⟩
          cases hu
        · obtain ⟨u, hu⟩ := hiff.mpr h.2
          cases hu
      · rw [hx] at hiff hheap hd
        have hget : c.ptr.get w₁.mem = c.ptr.get m := (hd.others c hnodup.1).trans (hm c (by simp))
        have htable : w₁.heap.tables r = c.table m := by
          rw [hheap]
          exact (hencodes (c, r) (by simp)).2
        obtain ⟨that', -, hheap', hcases⟩ := decode_plain I c.target c.flat c.ptr (r := r)
          (w := { w₁ with trace := w₁.trace ++ [.destructed (height + 1 : Int) (some (.table r))] })
          (by rw [htable, Converter.table, assign_all_metatable]; rfl)
        simp only [htable, c.base_eq, hget, c.accepts_iff] at hcases
        rw [Prog.exec_bind_of_ok hx, Prog.exec_bind_of_ok (exec_record _ _), ← map_eq_pure_bind, Prog.exec_map]
        refine ⟨?_, hheap'.trans hheap⟩
        have hrest := hiff.mp ⟨(), rfl⟩
        rcases hcases with ⟨hok, hnarrow, -⟩ | ⟨⟨e, herr⟩, hnarrow⟩
        · exact iff_of_true ⟨(), by rw [hok]; rfl⟩ ⟨hnarrow, hrest⟩
        · refine iff_of_false ?_ fun h => hnarrow h.1
          rintro ⟨u, hu⟩
          rw [herr] at hu
          cases hu

/-- Handles from 2⁶³ on are the only members that do not come back. -/
theorem Converter.narrow_iff (m : Memory) (c : Converter) :
    c.Narrow m ↔ (c = .file_info → (m.file_info .fh).val < 2 ^ 63) := by
  cases c with
  | conn_info =>
      refine iff_of_true (fun k _ => ?_) (fun h => by cases h)
      exact CInt.mem_int64_of_lt (by decide : CInt.unsigned_int.width < 64) (member m.conn_info k)
  | file_info =>
      have hfits := file_info_fits_iff m.file_info []
      simp only [last_assigned, List.reverse_nil, List.lookup_nil, reduceCtorEq, exists_false, or_false] at hfits
      exact hfits.trans ⟨fun h _ => h, fun h => h rfl⟩
  | flock =>
      refine iff_of_true (fun k _ => ?_) (fun h => by cases h)
      have hsigned : (Convert.flock.type k).signed = true := by cases k <;> rfl
      exact CInt.mem_int64_of_signed hsigned (Convert.flock.width_le k) (member m.flock k)

/-! ## Parameters -/

/-- A parameter, or a buffer and its size, of a callback as libfuse declares it. -/
inductive Parameter
  | value (d : Datum)
  | string (buffer : Nat → UInt8) (size : CInt.size_t.Val)
  | to_fill (size : CInt.size_t.Val)
  | result
  | struct (c : Converter)
  | filler (buffer function : Nat)
  | times (times : Option (Struct timespec × Struct timespec))
  | osxfuse

/-- What a script gets: a buffer and its size as one string, the size alone of a buffer that is to be
filled, and nothing for a struct that is to be filled. A parameter that only osxfuse has is nil. -/
def Parameter.args : Parameter → List Arg
  | .value d => [.push d]
  | .string buffer size => [.push (.str (string_reference buffer size))]
  | .to_fill size => [.push (.int size)]
  | .result => []
  | .struct c => [.pushvalue c]
  | .filler buffer function => [.fill_dir function buffer]
  | .times (some (atime, mtime)) => [.timespec atime, .timespec mtime]
  | .times none => [.push .nil, .push .nil]
  | .osxfuse => [.push .nil]

def Invocation.parameters : Invocation → List Parameter
  | .getattr path => [.value (.cstr path), .result]
  | .readlink path size => [.value (.cstr path), .to_fill size]
  | .mknod path mode dev => [.value (.cstr path), .value (.int mode), .value (.int dev)]
  | .mkdir path mode => [.value (.cstr path), .value (.int mode)]
  | .unlink path => [.value (.cstr path)]
  | .rmdir path => [.value (.cstr path)]
  | .symlink target path => [.value (.cstr target), .value (.cstr path)]
  | .rename oldpath newpath => [.value (.cstr oldpath), .value (.cstr newpath)]
  | .link oldpath newpath => [.value (.cstr oldpath), .value (.cstr newpath)]
  | .chmod path mode => [.value (.cstr path), .value (.int mode)]
  | .chown path uid gid => [.value (.cstr path), .value (.int uid), .value (.int gid)]
  | .truncate path size => [.value (.cstr path), .value (.int size)]
  | .open path => [.value (.cstr path), .struct .file_info]
  | .read path size offset => [.value (.cstr path), .to_fill size, .value (.int offset), .struct .file_info]
  | .write path buffer size offset =>
      [.value (.cstr path), .string buffer size, .value (.int offset), .struct .file_info]
  | .statfs path => [.value (.cstr path), .result]
  | .flush path => [.value (.cstr path), .struct .file_info]
  | .release path => [.value (.cstr path), .struct .file_info]
  | .fsync path datasync => [.value (.cstr path), .value (.int datasync), .struct .file_info]
  | .setxattr path name buffer size flags =>
      [.value (.cstr path), .value (.cstr name), .string buffer size, .value (.int flags), .osxfuse]
  | .getxattr path name size => [.value (.cstr path), .value (.cstr name), .to_fill size, .osxfuse]
  | .listxattr path size => [.value (.cstr path), .to_fill size]
  | .removexattr path name => [.value (.cstr path), .value (.cstr name)]
  | .opendir path => [.value (.cstr path), .struct .file_info]
  | .readdir path buffer function offset =>
      [.value (.cstr path), .filler buffer function, .value (.int offset), .struct .file_info]
  | .releasedir path => [.value (.cstr path), .struct .file_info]
  | .fsyncdir path datasync => [.value (.cstr path), .value (.int datasync), .struct .file_info]
  | .init => [.struct .conn_info]
  | .destroy => []
  | .access path mode => [.value (.cstr path), .value (.int mode)]
  | .create path mode => [.value (.cstr path), .value (.int mode), .struct .file_info]
  | .ftruncate path size => [.value (.cstr path), .value (.int size), .struct .file_info]
  | .fgetattr path => [.value (.cstr path), .result, .struct .file_info]
  | .lock path command => [.value (.cstr path), .struct .file_info, .value (.int command), .struct .flock]
  | .utimens path times => [.value (.cstr path), .times times]
  | .flock path operation => [.value (.cstr path), .struct .file_info, .value (.int operation)]
  | .fallocate path mode offset size =>
      [.value (.cstr path), .value (.int mode), .value (.int offset), .value (.int size), .struct .file_info]

/-- The one string is as long as the size, and has the bytes of the buffer. -/
def Reads (s : Bytes) (buffer : Nat → UInt8) (size : CInt.size_t.Val) : Prop :=
  s.length = size.val ∧ ∀ i : Nat, i < size.val → s[i]? = some (buffer i)

theorem reads_iff {s : Bytes} {buffer : Nat → UInt8} {size : CInt.size_t.Val} :
    Reads s buffer size ↔ s = string_reference buffer size := by
  have hsize := size.nonneg rfl
  constructor
  · rintro ⟨hlength, hbytes⟩
    refine List.ext_getElem? fun i => ?_
    by_cases hi : (i : Int) < size.val
    · rw [hbytes i hi, string_reference, List.getElem?_map, List.getElem?_range (by omega)]
      rfl
    · rw [List.getElem?_eq_none (by omega), List.getElem?_eq_none]
      rw [string_reference, List.length_map, List.length_range]
      omega
  · rintro rfl
    refine ⟨by simp [string_reference, hsize], fun i hi => ?_⟩
    rw [string_reference, List.getElem?_map, List.getElem?_range (by omega)]
    rfl

theorem Invocation.args_eq (inv : Invocation) :
    inv.callback.args = inv.parameters.flatMap Parameter.args := by
  cases inv with
  | utimens path times => cases times <;> rfl
  | _ => rfl

def Arg.converter? : Arg → Option Converter
  | .pushvalue c => some c
  | _ => none

theorem Invocation.converters_eq (inv : Invocation) :
    inv.callback.converters = inv.callback.args.filterMap Arg.converter? := by
  cases inv with
  | utimens path times => cases times <;> rfl
  | _ => rfl

theorem Invocation.mem_converters_iff (inv : Invocation) (c : Converter) :
    c ∈ inv.callback.converters ↔ .pushvalue c ∈ inv.callback.args := by
  rw [inv.converters_eq, List.mem_filterMap]
  constructor
  · rintro ⟨arg, harg, heq⟩
    cases arg <;> simp_all [Arg.converter?]
  · exact fun h => ⟨_, h, rfl⟩

theorem Tables.value_of_mem {tables : Tables} {c : Converter} (h : c ∈ tables.map Prod.fst) :
    ∃ r, (c, r) ∈ tables ∧ tables.value c = .table r := by
  obtain ⟨p, hp, hcp⟩ := List.mem_map.mp h
  obtain ⟨r, hr⟩ := Option.isSome_iff_exists.mp (List.lookup_isSome_iff.mpr ⟨p, hp, beq_iff_eq.mpr hcp.symm⟩)
  obtain ⟨before, after, heq, -⟩ := List.lookup_eq_some_iff.mp hr
  refine ⟨r, by simp [heq], ?_⟩
  rw [Tables.value, hr]
  rfl

/-- The value is what a script is meant to get. -/
def Arg.Passed (m : Memory) (h : Heap (Host X)) : Arg → Value → Prop
  | .push d, v => v = d.value
  | .pushvalue c, v => ∃ r, v = .table r ∧ h.tables r = c.table m
  | .fill_dir function buffer, v => ∃ r, v = .userdata r ∧
      h.host.fill_dirs r = some ⟨some function, some buffer, h.host.registered⟩
  | .timespec t, v => ∃ r, v = .table r ∧ h.tables r = assign_all .empty (timespec_fields t)

theorem Arg.Denotes.passed {m : Memory} {h : Heap (Host X)} {tables : Tables} {arg : Arg} {v : Value}
    (hd : arg.Denotes tables h v) (hencodes : Encodes m h tables)
    (hmem : ∀ c, arg = .pushvalue c → c ∈ tables.map Prod.fst) : arg.Passed m h v := by
  cases arg with
  | push d => exact hd
  | pushvalue c =>
      obtain ⟨r, hr, hvalue⟩ := Tables.value_of_mem (hmem c rfl)
      exact ⟨r, hd.trans hvalue, (hencodes (c, r) hr).2⟩
  | fill_dir function buffer =>
      obtain ⟨r, hv, -, hfill⟩ := hd
      exact ⟨r, hv, hfill⟩
  | timespec t =>
      obtain ⟨r, hv, -, htable⟩ := hd
      exact ⟨r, hv, htable⟩

theorem Invocation.passed (inv : Invocation) {m : Memory} {h : Heap (Host X)} {tables : Tables}
    {vs : List Value} (hfst : tables.map Prod.fst = inv.callback.converters) (hencodes : Encodes m h tables)
    (hargs : List.Forall₂ (Arg.Denotes tables h) inv.callback.args vs) :
    List.Forall₂ (Arg.Passed m h) (inv.parameters.flatMap Parameter.args) vs := by
  rw [← inv.args_eq]
  have hpassed : List.Forall₂ (fun arg v => arg ∈ inv.callback.args ∧ arg.Denotes tables h v) inv.callback.args vs :=
    (List.forall₂_and_left ..).mpr ⟨fun _ harg => harg, hargs⟩
  apply hpassed.imp
  rintro arg v ⟨harg, hd⟩
  apply hd.passed hencodes
  rintro c rfl
  rw [hfst]
  exact (inv.mem_converters_iff c).mpr harg

theorem exists_of_mem {α β : Type} {R : α → β → Prop} {l : List α} {l' : List β} (h : List.Forall₂ R l l') {a : α}
    (ha : a ∈ l) : ∃ b ∈ l', R a b := by
  obtain ⟨i, rfl⟩ := List.mem_iff_get.mp ha
  exact ⟨_, List.get_mem .., h.get i.isLt (h.length_eq ▸ i.isLt)⟩

theorem Invocation.passed_string (inv : Invocation) {m : Memory} {h : Heap (Host X)} {vs : List Value}
    (hpassed : List.Forall₂ (Arg.Passed m h) (inv.parameters.flatMap Parameter.args) vs) {buffer : Nat → UInt8}
    {size : CInt.size_t.Val} (hp : .string buffer size ∈ inv.parameters) :
    ∃ s, .string s ∈ vs ∧ Reads s buffer size := by
  have harg : .push (.str (string_reference buffer size)) ∈ inv.parameters.flatMap Parameter.args :=
    List.mem_flatMap.mpr ⟨_, hp, List.mem_singleton.mpr rfl⟩
  obtain ⟨v, hv, rfl⟩ := exists_of_mem hpassed harg
  exact ⟨_, hv, reads_iff.mpr rfl⟩

/-- `flock` alone looks up another name than its own. -/
theorem Invocation.name_eq (inv : Invocation) :
    inv.callback.name = if inv.operation = .flock then "lock" else inv.operation.name := by
  cases inv <;> rfl

theorem Invocation.missing_eq (inv : Invocation) (h : inv.operation ∈ considered) :
    inv.callback.finish.missing = .int ENOSYS := by
  cases inv with
  | init | destroy => exact absurd h (by decide)
  | _ => rfl

end DromozoaFuse.Operations
