import DromozoaFuse.Convert.Lemmas.Safe
import DromozoaFuse.Mount.Main

/-!
# Main results about `fuse.main`

Where the arguments are in order, libfuse is called once, with all of them; and else it is not called.
-/

namespace DromozoaFuse.Mount

open Base Lua DromozoaFuse.Bind DromozoaFuse.Convert Fill Operations

variable {X : Type} (I : Interp (Host X))

/-! ## Arguments -/

theorem luaX_get_index_run {stk : List Value} {index : Int} {o : Value} (h : slot stk index = some o)
    (i : CInt.int.Val) :
    (luaX_get_index I index i : LuaM (Host X) Mounting LuaType).run stk =
      (fun v => (v.type, v :: stk)) <$> I.gettable o (.integer (CInt.int64_t.wrap i.val)) := by
  obtain ⟨hpos, habs⟩ := absindex_slot h
  simp [luaX_get_index, slot_cons hpos habs, Datum.value]

theorem wrap_index {i : Nat} (h : i ≤ int_max) : (CInt.int.wrap i).val = i := by
  have hmax : CInt.int.max = int_max := by decide
  have hmin : CInt.int.min ≤ 0 := by decide
  apply CInt.wrap_of_mem
  constructor <;> omega

/-- Where the loop stands at a value: it takes a text and goes on. -/
theorem arguments_step {stk : List Value} {o v : Value} (h : slot stk 1 = some o) (n : Nat) {i : Nat} (hi : i ≤ int_max)
    (args : List Bytes) {w : World (Host X) Mounting}
    (hv : I.lookup o (.integer (CInt.int64_t.wrap i)) w.heap = (.ok v, w.heap)) :
    ∃ w₁, w₁.heap = w.heap ∧ w₁.mem = w.mem ∧ ((arguments I (n + 1) (CInt.int.wrap i) args).run stk).exec w =
      match I.tolstring v with
      | some p => ((arguments I n (CInt.int.wrap (i + 1 : Nat)) (args ++ [cstring p])).run stk).exec w₁
      | none => (.ok (some args, stk), w₁) := by
  have hget := gettable_exec I o (.integer (CInt.int64_t.wrap i)) w
  rw [hv] at hget
  refine ⟨answered I w o (.integer (CInt.int64_t.wrap i)), by rw [answered, hv], rfl, ?_⟩
  simp only [arguments, StateT.run_bind, luaX_get_index_run I h, bind_map_left, wrap_index hi]
  rw [Prog.exec_bind_of_ok hget]
  simp only [lua_tolstring_run, pure_bind]
  cases I.tolstring v <;> simp

/-- The loop comes to the first value that is no text. -/
theorem arguments_exec {stk : List Value} {o : Value} (h : slot stk 1 = some o) {a : Nat → Value} {texts : List Bytes}
    {i : Nat} (htexts : ∀ j ≤ texts.length, I.tolstring (a (i + j)) = texts[j]?) {n : Nat} (hn : texts.length < n)
    (hint : i + texts.length ≤ int_max) (args : List Bytes) {w : World (Host X) Mounting}
    (ha : ∀ i : Nat, I.lookup o (.integer (CInt.int64_t.wrap i)) w.heap = (.ok (a i), w.heap)) :
    ∃ w', ((arguments I n (CInt.int.wrap i) args).run stk).exec w = (.ok (some (args ++ texts.map cstring), stk), w') ∧
      w'.heap = w.heap ∧ w'.mem = w.mem := by
  induction texts generalizing i n args w with
  | nil =>
      obtain ⟨n, rfl⟩ : ∃ m, n = m + 1 := ⟨n - 1, by omega⟩
      obtain ⟨w₁, hheap, hmem, hstep⟩ := arguments_step I h n (Nat.le_trans (Nat.le_add_right ..) hint) args (ha i)
      have hlast : I.tolstring (a i) = none := htexts 0 (Nat.zero_le _)
      rw [hlast] at hstep
      exact ⟨w₁, by simpa using hstep, hheap, hmem⟩
  | cons s texts ih =>
      rw [List.length_cons] at hn hint
      obtain ⟨n, rfl⟩ : ∃ m, n = m + 1 := ⟨n - 1, by omega⟩
      obtain ⟨w₁, hheap, hmem, hstep⟩ := arguments_step I h n (by omega) args (ha i)
      have hfirst : I.tolstring (a i) = some s := htexts 0 (Nat.zero_le _)
      rw [hfirst] at hstep
      have hrest : ∀ j ≤ texts.length, I.tolstring (a (i + 1 + j)) = texts[j]? := by
        intro j hj
        have hnext : I.tolstring (a (i + (j + 1))) = texts[j]? := htexts (j + 1) (by simpa using hj)
        rwa [Nat.add_assoc, Nat.add_comm 1 j]
      obtain ⟨w', hexec, hheap', hmem'⟩ := ih hrest (n := n) (by omega) (by omega) (args ++ [cstring s]) (w := w₁)
        (by rwa [hheap])
      refine ⟨w', ?_, hheap'.trans hheap, hmem'.trans hmem⟩
      rw [hstep]
      dsimp only
      rw [hexec, List.map_cons, List.append_assoc, List.singleton_append]

/-! ## Operations -/

/-- The callbacks of handlers in a table without a metatable: those that are there, `init` and `destroy`. -/
def installed (handlers : Bytes → Value) : Slots :=
  fun n => if n ∈ considered ∧ handlers (bytes n.name) = .nil then none else some n

theorem considering_plain {r : Nat} (ns : List Operation) (slots : Slots) {w : World (Host X) Operations.Memory}
    (hr : (w.heap.tables r).metatable = false) :
    ∃ w', (ns.foldlM (considering I (.table r)) slots).exec w =
        (.ok (fun n => if n ∈ ns ∧ (w.heap.tables r).fields (bytes n.name) ≠ .nil then some n else slots n), w') ∧
      w'.heap = w.heap := by
  induction ns generalizing slots w with
  | nil => exact ⟨w, by simp, rfl⟩
  | cons n ns ih =>
      have hget := gettable_exec I (.table r) (.string (bytes n.name)) w
      rw [lookup_plain I hr] at hget
      have hheap : (answered I w (.table r) (.string (bytes n.name))).heap = w.heap := by
        rw [answered, lookup_plain I hr]
      have hfirst : (considering I (.table r) slots n).exec w =
          (.ok (if (w.heap.tables r).fields (bytes n.name) = .nil then slots else slots.set n),
            answered I w (.table r) (.string (bytes n.name))) := Prog.exec_bind_of_ok hget
      obtain ⟨w', hexec, hheap'⟩ := ih (if (w.heap.tables r).fields (bytes n.name) = .nil then slots else slots.set n)
        (w := answered I w (.table r) (.string (bytes n.name))) (by rwa [hheap])
      refine ⟨w', ?_, hheap'.trans hheap⟩
      rw [List.foldlM_cons, Prog.exec_bind_of_ok hfirst, hexec, hheap]
      congr 2
      funext m
      by_cases hm : m = n
      · subst hm
        by_cases hnil : (w.heap.tables r).fields (bytes m.name) = .nil <;> simp [hnil, Slots.set]
      · by_cases hnil : (w.heap.tables r).fields (bytes n.name) = .nil <;> simp [hm, hnil, Slots.set]

theorem new_operations_exec {r : Nat} {w : World (Host X) Mounting} (hr : (w.heap.tables r).metatable = false) :
    ∃ w', (new_operations I (.table r)).exec w = (.ok (installed (w.heap.tables r).fields), w') ∧ w'.heap = w.heap ∧
      w'.mem = { w.mem with ops := zero } := by
  obtain ⟨w₁, hexec, hheap⟩ := considering_plain I considered unconditional
    (w := ⟨w.heap, .zeroed, [.opened [.table r]]⟩) hr
  have hslots : (fun n => if n ∈ considered ∧ (w.heap.tables r).fields (bytes n.name) ≠ .nil then some n
      else unconditional n) = installed (w.heap.tables r).fields := by
    funext n
    have hn : unconditional n = if n ∈ considered then none else some n := by cases n <;> rfl
    rw [hn, installed]
    by_cases hmem : n ∈ considered <;> by_cases hnil : (w.heap.tables r).fields (bytes n.name) = .nil <;>
      simp [hmem, hnil]
  have hrun : ((operations I).run [.table r]).exec ⟨w.heap, .zeroed, []⟩ =
      (.ok (installed (w.heap.tables r).fields, [.table r]),
        { w₁ with trace := w₁.trace ++ [.closed [.table r]] }) := by
    rw [operations_run, Prog.exec_map, Prog.exec_bind_of_ok (exec_record _ _), List.nil_append,
      Prog.exec_bind_of_ok hexec, Prog.exec_bind_of_ok (exec_record _ _), hslots]
    rfl
  refine ⟨⟨w.heap, { w.mem with ops := zero }, w.trace ++ (w₁.trace ++ [.closed [.table r]])⟩, ?_, rfl, rfl⟩
  simp only [new_operations, Prog.exec_lift, hrun, hheap]
  rfl

/-! ## Flags -/

/-- The flags are clear without a table, and else they are the lowest bits of its fields. The reserved ones are
always clear. -/
def FlagsOf (h : Heap (Host X)) (flags : Struct fuse_operations) : Option Value → Prop
  | some (.table r) => (h.tables r).metatable = false ∧ (flags .flag_reserved).val = 0 ∧
      ∀ k : operations_member, k ≠ .flag_reserved →
        ((h.tables r).fields (key (S := fuse_operations) k) = .nil ∧ (flags k).val = 0) ∨
        ∃ i, (h.tables r).fields (key (S := fuse_operations) k) = .integer i ∧ CInt.unsigned_int.Mem i.val ∧
          (flags k).val = i.val % 2
  | _ => flags = zero

theorem operations_flat : ∀ s ∈ Target.operations.steps, s.isFlat = true := by
  have hall : ∀ s ∈ operations_steps, s.isFlat = true := by decide
  exact hall

theorem mem_operations_steps {k : operations_member} :
    Step.OPT_FIELD (S := fuse_operations) k ∈ operations_steps ↔ k ≠ .flag_reserved := by
  have hread : k ∈ [operations_member.flag_nullpath_ok, .flag_nopath, .flag_utime_omit_ok] ↔
      Step.OPT_FIELD (S := fuse_operations) k ∈ operations_steps := Target.mem_integers (t := .operations)
  rw [← hread]
  cases k <;> simp

theorem stream_not_mem (k : operations_member) : Step.stream (S := fuse_operations) k ∉ operations_steps := by
  simp [operations_steps]

theorem wrap_bit {k : operations_member} (hk : k ≠ .flag_reserved) (i : Int) :
    ((fuse_operations.store k).wrap i).val = i % 2 := by
  cases k with
  | flag_reserved => exact absurd rfl hk
  | _ => simp [CInt.wrap, CInt.min, CInt.card, Layout.store, fuse_operations, CInt.unsigned_int]

/-- The flag of a field that is read is its lowest bit. -/
theorem flag_read {clear : CInt.unsigned_int.Val} (hclear : clear.val = 0) {v : Value} {flag : Int}
    (h : (v = .nil ∧ flag = 0) ∨ ∃ i, v = .integer i ∧ CInt.unsigned_int.Mem i.val ∧ flag = i.val % 2) :
    ∃ i, field_integer I CInt.unsigned_int clear CInt.unsigned_int.min CInt.unsigned_int.max v = .ok i ∧
      i.val % 2 = flag := by
  rcases h with ⟨rfl, rfl⟩ | ⟨i, rfl, hi, rfl⟩
  · have hsource : (CInt.intmax_t.wrap clear.val).val = 0 := by
      rw [hclear]
      decide
    have hmem : CInt.unsigned_int.Mem (CInt.intmax_t.wrap clear.val).val := by
      rw [hsource]
      decide
    rw [field_integer_of_source I (field_source_nil I clear), dif_pos hmem]
    exact ⟨_, rfl, by rw [hsource]; rfl⟩
  · rw [field_integer_of_source I (field_source_integer I clear i), dif_pos hi]
    exact ⟨_, rfl, rfl⟩

theorem FlagsOf.convert {stk : List Value} {flags : Struct fuse_operations} {w : World (Host X) Mounting}
    (h : FlagsOf w.heap flags (slot stk 3)) (hzero : w.mem.ops = zero) :
    ∃ b w', ((Convert.convert I .operations ops_ptr 3).run stk).exec w = (.ok (b, stk), w') ∧ w'.heap = w.heap ∧
      w'.mem = { w.mem with ops := flags } := by
  have hsame : flags = zero → w.mem = { w.mem with ops := flags } := by
    rintro rfl
    rw [← hzero]
  cases hslot : slot stk 3 with
  | none =>
      rw [hslot] at h
      exact ⟨false, w, by simp [Convert.convert, from_table, hslot], rfl, hsame h⟩
  | some v =>
      rw [hslot] at h
      rw [convert_exec I .operations ops_ptr hslot]
      cases v with
      | table r =>
          obtain ⟨hplain, hreserved, hfields⟩ := h
          have hclear : ∀ k : operations_member, (member (S := fuse_operations) (ops_ptr.get w.mem) k).val = 0 := by
            intro k
            change (member (S := fuse_operations) w.mem.ops k).val = 0
            rw [hzero]
            exact CInt.wrap_of_mem (CInt.zero_mem (fuse_operations.bits_pos k))
          have hread := fun (k : operations_member) hk => flag_read I (hclear k) (hfields k hk)
          obtain ⟨that, hmem, hheap, ⟨hok, -, hconverted⟩ | ⟨-, hnot⟩⟩ :=
            decode_plain I .operations operations_flat ops_ptr hplain
          · have hthat : that = flags := by
              funext k
              apply CInt.Val.ext
              by_cases hk : k = .flag_reserved
              · have hread : Step.OPT_FIELD (S := fuse_operations) k ∉ operations_steps :=
                  fun h => mem_operations_steps.mp h hk
                have hkept : that k = ops_ptr.get w.mem k := hconverted.frame k hread (stream_not_mem k)
                rw [hkept, hk, hreserved]
                exact hclear .flag_reserved
              · obtain ⟨i, hread, hflag⟩ := hread k hk
                rw [hconverted.integer k (mem_operations_steps.mpr hk) i hread]
                exact (wrap_bit hk i.val).trans hflag
            rw [hok]
            exact ⟨true, _, rfl, hheap, by rw [hmem, hthat]; rfl⟩
          · exact absurd (fun k hk => ⟨_, (hread k (mem_operations_steps.mp hk)).choose_spec.1⟩) hnot
      | _ => exact ⟨false, w, rfl, rfl, hsame h⟩

/-! ## `impl_main` -/

/-- With its arguments in order, `fuse.main` calls libfuse once: with the texts at the beginning of the first table,
each of them up to its first NUL, with the callbacks that have a handler, and with the flags of the last table. -/
theorem main_mounts {managers : Managers} (libfuse : FuseMain X) {stk : List Value} {args manager handlers : Nat}
    (hargs : slot stk 1 = some (.table args)) (hmanager : slot stk 2 = some (.userdata manager))
    (hmanagers : managers manager = some (.table handlers)) {w : World (Host X) Mounting} {a : Nat → Value}
    (ha : ∀ i : Nat, I.lookup (.table args) (.integer (CInt.int64_t.wrap i)) w.heap = (.ok (a i), w.heap))
    {texts : List Bytes} (htexts : ∀ i ≤ texts.length, I.tolstring (a (1 + i)) = texts[i]?)
    (hcount : texts.length < int_max) (hplain : (w.heap.tables handlers).metatable = false)
    {flags : Struct fuse_operations} (hflags : FlagsOf w.heap flags (slot stk 3)) :
    ∃ w', ((impl_main I managers libfuse).run stk).exec w =
        (.ok (some (), (Datum.int (libfuse ⟨texts.map cstring, installed (w.heap.tables handlers).fields, flags⟩
          w.heap).1).value :: stk), w') ∧
      w'.mem.called = w.mem.called ++ [⟨texts.map cstring, installed (w.heap.tables handlers).fields, flags⟩] ∧
      w'.heap = (libfuse ⟨texts.map cstring, installed (w.heap.tables handlers).fields, flags⟩ w.heap).2 := by
  obtain ⟨w₁, hloop, hheap₁, hmem₁⟩ := arguments_exec I hargs htexts (n := int_max) (by omega) (by omega) [] ha
  obtain ⟨w₂, hnew, hheap₂, hmem₂⟩ := new_operations_exec I (w := w₁) (r := handlers) (by rwa [hheap₁])
  have hflags : FlagsOf w₂.heap flags (slot stk 3) := by rwa [hheap₂, hheap₁]
  obtain ⟨b, w₃, hconvert, hheap₃, hmem₃⟩ := hflags.convert I (by rw [hmem₂])
  have htable : ((slot stk 1).map Value.type).getD .none = .table := by
    rw [hargs]
    rfl
  have hcheck : (check_state_manager I managers 2).run stk = pure (.table handlers, stk) := by
    simp [check_state_manager, hmanager, hmanagers]
  rw [Nat.cast_one, List.nil_append] at hloop
  rw [hheap₁] at hnew hheap₂
  simp only [impl_main, StateT.run_bind, lua_type_run, htable, hcheck, pure_bind, ne_eq, not_true_eq_false, if_false]
  rw [Prog.exec_bind_of_ok hloop]
  simp only [StateT.run_bind, onHost_run, bind_map_left]
  rw [Prog.exec_bind_of_ok hnew, Prog.exec_bind_of_ok hconvert]
  have hread : (read ops_ptr : HostM (Host X) Mounting _).exec w₃ = (.ok flags, w₃) := by
    change (Except.ok w₃.mem.ops, w₃) = _
    rw [hmem₃]
  have hcalled : w₃.mem.called = w.mem.called := by rw [hmem₃, hmem₂, hmem₁]
  rw [hheap₂] at hheap₃
  rw [Prog.exec_bind_of_ok hread]
  generalize Call.mk (texts.map cstring) (installed (w.heap.tables handlers).fields) flags = call
  rw [← hheap₃, ← hcalled]
  exact ⟨_, rfl, rfl, rfl⟩

/-- Arguments for `fuse_main`: the last one but one has a NUL in it. -/
def given : List Bytes := [bytes "simple.lua", bytes "-s" ++ 0 :: bytes "x", bytes "/mnt"]

def argument (i : Int) : Value := if i ≤ 0 then .nil else (given[(i - 1).toNat]?.map Value.string).getD .nil

/-- Scripts that have the arguments in every table, from index 1 on. -/
def giving : Interp (Host Unit) :=
  { Interp.constant (.ok .nil) with
    index := fun _ key h => match key with
      | .number (.integer i) => (.ok (argument i.val), h)
      | _ => (.ok .nil, h)
    index_scripted := by
      intro _ key h
      split <;> exact .refl h }

/-- Table 0 has two handlers, and table 1 has flags. -/
def mountable : Heap (Host Unit) where
  tables
    | 0 => ⟨fun k => if k ∈ [bytes "getattr", bytes "readdir"] then .function 1 else .nil, false, true⟩
    | 1 => ⟨fun k => if k = bytes "flag_nopath" then .integer (CInt.int64_t.wrap 2)
        else if k = bytes "flag_utime_omit_ok" then .integer (CInt.int64_t.wrap 1) else .nil, false, true⟩
    | _ => .empty
  next := 3
  host := ⟨fun _ => none, true, [], ()⟩

def flags_given : Struct fuse_operations
  | .flag_utime_omit_ok => (fuse_operations.store operations_member.flag_utime_omit_ok).wrap 1
  | .flag_nopath => (fuse_operations.store operations_member.flag_nopath).wrap 0
  | .flag_nullpath_ok => (fuse_operations.store operations_member.flag_nullpath_ok).wrap 0
  | .flag_reserved => (fuse_operations.store operations_member.flag_reserved).wrap 0

theorem main_mounts_given : ∃ w', ((impl_main giving (fun _ => some (.table 0)) fun _ h => (CInt.int.wrap 0, h)).run
      [.table 1, .userdata 2, .table 2]).exec ⟨mountable, ⟨zero, []⟩, []⟩ =
        (.ok (some (), [(Datum.int (CInt.int.wrap 0)).value, .table 1, .userdata 2, .table 2]), w') ∧
    w'.mem.called.map (fun c => (c.argv, considered.filter fun n => (c.slots n).isSome)) =
      [([bytes "simple.lua", bytes "-s", bytes "/mnt"], [.getattr, .readdir])] := by
  have hlookup : ∀ i : Nat, giving.lookup (.table 2) (.integer (CInt.int64_t.wrap i)) mountable =
      (.ok (argument (CInt.int64_t.wrap i).val), mountable) := fun _ => rfl
  have htexts : ∀ i ≤ given.length, giving.tolstring (argument (CInt.int64_t.wrap (1 + i : Nat)).val) = given[i]? := by
    have hall : ∀ i < 4, giving.tolstring (argument (CInt.int64_t.wrap (1 + i : Nat)).val) = given[i]? := by
      decide +kernel
    exact fun i hi => hall i (Nat.lt_succ_of_le hi)
  have hflags : FlagsOf mountable flags_given (slot [.table 1, .userdata 2, .table 2] 3) := by
    refine ⟨rfl, by decide +kernel, fun k hk => ?_⟩
    cases k with
    | flag_reserved => exact absurd rfl hk
    | flag_nullpath_ok => exact Or.inl ⟨by decide +kernel, by decide +kernel⟩
    | flag_nopath => exact Or.inr ⟨CInt.int64_t.wrap 2, by decide +kernel, by decide +kernel, by decide +kernel⟩
    | flag_utime_omit_ok => exact Or.inr ⟨CInt.int64_t.wrap 1, by decide +kernel, by decide +kernel, by decide +kernel⟩
  obtain ⟨w', hexec, hcalled, -⟩ := @main_mounts Unit giving (fun _ => some (.table 0))
    (fun _ h => (CInt.int.wrap 0, h)) [.table 1, .userdata 2, .table 2] 2 2 0 rfl rfl rfl
    ⟨mountable, ⟨zero, []⟩, []⟩ _ hlookup given htexts (by decide) rfl flags_given hflags
  refine ⟨w', hexec, ?_⟩
  rw [hcalled]
  decide +kernel

/-! ## Calls of libfuse -/

section

variable {called : List Call}

/-- Libfuse has been called once more if `fuse.main` returns, and else not at all. -/
def Once (called : List Call) (out : Except Value (Option Unit × List Value) × World (Host X) Mounting) : Prop :=
  (∃ call stk, out.1 = .ok (some (), stk) ∧ out.2.mem.called = called ++ [call]) ∨
    out.2.mem.called = called ∧ ∀ stk, out.1 ≠ .ok (some (), stk)

/-- A program that does not call it. -/
abbrev Uncalling {α : Type} (called : List Call) (x : HostM (Host X) Mounting α) : Prop :=
  Safe (fun m => m.called = called) (fun _ => True) x

theorem Once.bind {α : Type} {x : HostM (Host X) Mounting α}
    {f : α → HostM (Host X) Mounting (Option Unit × List Value)} (hx : Uncalling called x)
    (hf : ∀ a w, w.mem.called = called → Once called ((f a).exec w)) {w : World (Host X) Mounting}
    (hw : w.mem.called = called) : Once called ((x >>= f).exec w) := by
  obtain ⟨hmem, -⟩ := hx w hw
  rcases hxw : x.exec w with ⟨e | a, w₁⟩
  · rw [hxw] at hmem
    rw [Prog.exec_bind_of_error hxw]
    exact Or.inr ⟨hmem, fun _ he => by cases he⟩
  · rw [hxw] at hmem
    rw [Prog.exec_bind_of_ok hxw]
    exact hf a w₁ hmem

theorem arguments_uncalling {stk : List Value} {o : Value} (h : slot stk 1 = some o) (n : Nat) (i : CInt.int.Val)
    (args : List Bytes) : Uncalling called ((arguments I n i args).run stk) := by
  induction n generalizing i args with
  | zero => exact .pure trivial
  | succ n ih =>
      simp only [arguments, StateT.run_bind, luaX_get_index_run I h, bind_map_left]
      apply (Safe.gettable I o _).bind
      intro v _
      simp only [lua_tolstring_run, pure_bind]
      cases I.tolstring v with
      | some p => exact ih _ _
      | none => exact .pure trivial

theorem check_exec (managers : Managers) (arg : Nat) (stk : List Value) (w : World (Host X) Mounting) :
    (∃ ops, ((check_state_manager I managers arg).run stk).exec w = (.ok (ops, stk), w)) ∨
      ∃ e, ((check_state_manager I managers arg).run stk).exec w = (.error e, w) := by
  simp only [check_state_manager, StateT.run_bind, StateT.run_get, pure_bind]
  split
  · exact Or.inl ⟨_, rfl⟩
  · exact Or.inr (typeerror_exec I arg _ stk w)

theorem new_operations_uncalling (ops : Value) : Uncalling called (new_operations I ops) :=
  fun _ hw => ⟨hw, fun _ _ => trivial⟩

theorem convert_uncalling (stk : List Value) :
    Uncalling called ((convert I .operations ops_ptr 3).run stk) := by
  have hdecode : ∀ o, Uncalling called (decode I ops_ptr operations_steps o : HostM (Host X) Mounting Bool) := by
    apply decode_safe
    intro s hs
    simp only [operations_steps, List.mem_cons, List.not_mem_nil, or_false] at hs
    rcases hs with rfl | rfl | rfl <;> exact fun _ _ _ _ _ hm _ => hm
  cases hslot : slot stk 3 with
  | none =>
      have hnone : (convert I .operations ops_ptr 3).run stk = (pure (false, stk) : HostM (Host X) Mounting _) := by
        simp [convert, from_table, hslot]
      rw [hnone]
      exact .pure trivial
  | some o =>
      rw [convert, from_table_run I ops_ptr hslot, map_eq_pure_bind]
      exact (hdecode o).bind fun _ _ => .pure trivial

/-- Whatever scripts do, libfuse is called exactly where `fuse.main` returns. -/
theorem main_once (managers : Managers) (libfuse : FuseMain X) (stk : List Value) (w : World (Host X) Mounting) :
    Once w.mem.called (((impl_main I managers libfuse).run stk).exec w) := by
  have hraised : ∀ e, Once w.mem.called (.error e, w) := fun e => Or.inr ⟨rfl, fun _ he => by cases he⟩
  simp only [impl_main, StateT.run_bind, lua_type_run, pure_bind]
  by_cases htype : ((slot stk 1).map Value.type).getD .none = .table
  · obtain ⟨o, hslot⟩ : ∃ o, slot stk 1 = some o := by
      cases hslot : slot stk 1 with
      | none => simp [hslot] at htype
      | some o => exact ⟨o, rfl⟩
    simp only [htype, ne_eq, not_true_eq_false, if_false, StateT.run_bind]
    rcases check_exec I managers 2 stk w with ⟨ops, hcheck⟩ | ⟨e, hcheck⟩
    · rw [Prog.exec_bind_of_ok hcheck]
      apply Once.bind (arguments_uncalling I hslot _ _ _) _ rfl
      rintro ⟨argv, stk⟩ w hw
      cases argv with
      | none => exact Or.inr ⟨hw, fun _ he => by cases he⟩
      | some argv =>
          simp only [StateT.run_bind, onHost_run, bind_map_left]
          apply Once.bind (new_operations_uncalling I ops) _ hw
          intro slots w hw
          apply Once.bind (convert_uncalling I stk) _ hw
          intro p w hw
          exact Or.inl ⟨_, _, rfl, by rw [← hw]; rfl⟩
    · rw [Prog.exec_bind_of_error hcheck]
      exact hraised e
  · obtain ⟨e, he⟩ : ∃ e, ((typeerror I 1 "table" : LuaM (Host X) Mounting PUnit).run stk).exec w = (.error e, w) :=
      typeerror_exec I 1 "table" stk w
    simp only [htype, ne_eq, not_false_eq_true, if_true, StateT.run_bind]
    rw [Prog.exec_bind_of_error he]
    exact hraised e

end

end DromozoaFuse.Mount
