import DromozoaFuse.FillDir.Scripts

/-!
# One call of a filler

The stack of `impl_call`, and what a call comes to.
-/

namespace DromozoaFuse.Fill

open Base Lua DromozoaFuse.Bind DromozoaFuse.Convert

variable {X M : Type} (I : Interp (Host X)) (filler : Filler)

/-! ## The arguments on the stack -/

theorem slot_args (object : Value) (args : List Value) (k : Nat) :
    slot (args.reverse ++ [object]) (.ofNat (k + 2)) = args[k]? := by
  simp [slot]

theorem setSlot_args (object v w : Value) (args : List Value) :
    setSlot ((v :: args).reverse ++ [object]) w 2 = (w :: args).reverse ++ [object] := by
  have hindex : (args.reverse ++ [v] ++ [object]).length - 1 - 1 = args.reverse.length := by simp
  change List.set ((v :: args).reverse ++ [object]) _ w = _
  simp only [List.reverse_cons, hindex]
  simp

theorem check_fill_dir_args {object : Value} {r : Nat} (args : List Value) {w : World (Host X) M}
    (hr : w.heap.host.fill_dir? (some object) = some r) :
    ((check_fill_dir I 1).run (args.reverse ++ [object])).exec w = (.ok (r, args.reverse ++ [object]), w) := by
  have hexec : ((onHost get : LuaM (Host X) M _).run (args.reverse ++ [object])).exec w =
      (.ok (w, args.reverse ++ [object]), w) := rfl
  simp only [check_fill_dir, StateT.run_bind]
  rw [Prog.exec_bind_of_ok hexec]
  simp [hr]

theorem checklstring_args (object : Value) (args : List Value) (w : World (Host X) M) :
    (∃ (s : Bytes) (args' : List Value), I.tolstring (args[0]?.getD .nil) = some s ∧
      args'.length = args.length ∧ (∀ k, args'[k + 1]? = args[k + 1]?) ∧
      ((luaL_checklstring I 2).run (args.reverse ++ [object])).exec w = (.ok (s, args'.reverse ++ [object]), w)) ∨
    (I.tolstring (args[0]?.getD .nil) = none ∧
      ∃ e, ((luaL_checklstring I 2).run (args.reverse ++ [object])).exec w = (.error e, w)) := by
  have hslot : slot (args.reverse ++ [object]) ((2 : Nat) : Int) = args[0]? := slot_args object args 0
  cases args with
  | nil =>
      refine Or.inr ⟨rfl, ?_⟩
      rw [luaL_checklstring_of_none I (by rw [hslot]; rfl)]
      exact typeerror_exec I 2 "string" _ w
  | cons v args =>
      cases hs : I.tolstring v with
      | none =>
          refine Or.inr ⟨hs, ?_⟩
          rw [luaL_checklstring_of_none I (by rw [hslot]; exact hs)]
          exact typeerror_exec I 2 "string" _ w
      | some s =>
          refine Or.inl ⟨s, .string s :: args, hs, rfl, fun k => rfl, ?_⟩
          rw [luaL_checklstring_of_some I (by rw [hslot]; exact hs)]
          rw [← setSlot_args object v (.string s) args]
          rfl

theorem convert_args (object : Value) (args : List Value) (p : Ptr M (Struct Convert.stat)) :
    (convert I .stat p 3 : LuaM (Host X) M Bool).run (args.reverse ++ [object]) =
      (fun b => (b, args.reverse ++ [object])) <$> decode I p stat_steps (args[1]?.getD .nil) := by
  have hslot := slot_args object args 1
  cases harg : args[1]? with
  | some v => exact from_table_run I p (hslot.trans harg) stat_steps
  | none =>
      have hnone : slot (args.reverse ++ [object]) 3 = none := hslot.trans harg
      simp [convert, from_table, hnone, decode, Value.type]

theorem offset?_of_value {v : Value} (h : v ≠ .nil) :
    offset? I v = ((I.tonumber v).bind Number.toInteger?).bind fun i =>
      luaX_integer_traits_convert CInt.off_t i CInt.off_t.min CInt.off_t.max := by
  simp only [luaX_integer_traits_convert_eq fun h : CInt.off_t.signed = false => absurd h (by decide)]
  cases v with
  | nil => exact absurd rfl h
  | _ => rfl

theorem opt_offset_args (object : Value) (args : List Value) (w : World (Host X) M) :
    (∃ offset, offset? I (args[2]?.getD .nil) = some offset ∧
      ((luaX_opt_integer I CInt.off_t 4 (CInt.off_t.wrap 0)).run (args.reverse ++ [object])).exec w =
        (.ok (offset, args.reverse ++ [object]), w)) ∨
    (offset? I (args[2]?.getD .nil) = none ∧
      ∃ e, ((luaX_opt_integer I CInt.off_t 4 (CInt.off_t.wrap 0)).run (args.reverse ++ [object])).exec w =
        (.error e, w)) := by
  have hslot : slot (args.reverse ++ [object]) ((4 : Nat) : Int) = args[2]? := slot_args object args 2
  rw [← hslot]
  generalize args.reverse ++ [object] = stk
  have hzero : luaX_integer_traits_convert CInt.off_t (CInt.int64_t.wrap (CInt.off_t.wrap 0).val) CInt.off_t.min
      CInt.off_t.max = some (CInt.off_t.wrap 0) := by decide +kernel
  simp only [luaX_opt_integer, StateT.run_bind]
  by_cases hnil : (slot stk ((4 : Nat) : Int)).getD .nil = .nil
  · rw [luaL_optinteger_of_nil I hnil, hnil]
    exact Or.inl ⟨CInt.off_t.wrap 0, rfl, by simp [hzero]⟩
  · cases hv : slot stk ((4 : Nat) : Int) with
    | none => exact absurd (by rw [hv]; rfl) hnil
    | some v =>
        have hv' : v ≠ .nil := fun h => hnil (by rw [hv, h]; rfl)
        rw [Option.getD_some, offset?_of_value I hv']
        rcases luaL_optinteger_of_value I hv hv' (CInt.int64_t.wrap (CInt.off_t.wrap 0).val) w with
          ⟨i, hi, hexec⟩ | ⟨hi, e, hexec⟩
        · rw [hi, Option.bind_some, Prog.exec_bind_of_ok hexec]
          dsimp only
          cases luaX_integer_traits_convert CInt.off_t i CInt.off_t.min CInt.off_t.max with
          | none => exact Or.inr ⟨rfl, _, rfl⟩
          | some offset => exact Or.inl ⟨offset, rfl, rfl⟩
        · rw [hi, Prog.exec_bind_of_error hexec]
          exact Or.inr ⟨rfl, e, rfl⟩

/-! ## What a call comes to -/

/-- The filler with a reference has its function and its buffer. -/
def Host.Scoped (host : Host X) (r function buffer : Nat) : Prop :=
  ∃ metatable, host.fill_dirs r = some ⟨some function, some buffer, metatable⟩

/-- What a call of a filler comes to: `h` is the heap before, and `decoded` the one after the conversion. -/
inductive Comes (r : Nat) (args : List Value) (h decoded : Heap (Host X)) :
    Except Value (List Value) × Heap (Host X) → Prop
  | malformed {e h₁} (hformed : formed? I args h = none) (hheap : h₁ = h ∨ h₁ = decoded) :
      Comes r args h decoded (.error e, h₁)
  | out_of_scope {f} (hformed : formed? I args h = some f)
      (hscoped : ∀ function buffer, ¬ decoded.host.Scoped r function buffer) :
      Comes r args h decoded (.ok [.nil, .string (bytes "out of scope")], decoded)
  | passed {f function buffer result} (hformed : formed? I args h = some f)
      (hscoped : decoded.host.Scoped r function buffer) :
      Comes r args h decoded (.ok [.integer (CInt.int64_t.wrap result.val)],
        { decoded with
          host := { decoded.host with
            filled := decoded.host.filled ++ [⟨function, buffer, f.name, f.stat, f.offset, result⟩] } })

theorem stat?_of_decode {v : Value} {h : Heap (Host X)} {out : Except Value Bool}
    {w : World (Host X) (Struct Convert.stat)} (hx : (decode I .whole stat_steps v).exec ⟨h, zero, []⟩ = (out, w)) :
    stat? I v h = out.toOption.map fun b => if b then some w.mem else none := by
  by_cases hv : v.type = .table
  · cases v with
    | table r =>
        cases out with
        | error e => simp [stat?, hx, Except.toOption]
        | ok b =>
            obtain rfl : b = true := by
              rw [decode, if_pos hv] at hx
              obtain ⟨a, w', -, hb⟩ := Prog.exec_bind_ok hx
              cases hb
              rfl
            simp [stat?, hx, Except.toOption]
    | _ => cases hv
  · rw [decode, if_neg hv] at hx
    cases hx
    cases v with
    | table r => exact absurd rfl hv
    | _ => rfl

theorem call_exec (r : Nat) (name : Bytes) (stat : Option (Struct Convert.stat)) (offset : CInt.off_t.Val)
    (w : World (Host X) M) :
    (∃ function buffer result, w.heap.host.Scoped r function buffer ∧
      (call filler r name stat offset).exec w = (.ok (.ok result),
        { w with
          heap := { w.heap with
            host := { w.heap.host with
              filled := w.heap.host.filled ++ [⟨function, buffer, name, stat, offset, result⟩] } } })) ∨
    ((∀ function buffer, ¬ w.heap.host.Scoped r function buffer) ∧
      (call filler r name stat offset).exec w = (.ok (.error "out of scope"), w)) := by
  have hexec : (get : HostM (Host X) M _).exec w = (.ok w, w) := rfl
  unfold call Host.Scoped
  rw [Prog.exec_bind_of_ok hexec]
  rcases w.heap.host.fill_dirs r with _ | ⟨_ | function, _ | buffer, metatable⟩
  · exact Or.inr ⟨by simp, rfl⟩
  · exact Or.inr ⟨by simp, rfl⟩
  · exact Or.inr ⟨by simp, rfl⟩
  · exact Or.inr ⟨by simp, rfl⟩
  · exact Or.inl ⟨function, buffer, _, ⟨metatable, rfl⟩, rfl⟩

/-- How `impl_call` ends, with the stack as it is then. -/
inductive CallEnds (r : Nat) (object : Value) (args : List Value) (h decoded : Heap (Host X)) :
    Except Value (Except String Unit × List Value) × World (Host X) (Struct Convert.stat) → Prop
  | raised {e w} (hformed : formed? I args h = none) (hheap : w.heap = h ∨ w.heap = decoded) :
      CallEnds r object args h decoded (.error e, w)
  | thrown {f stk w} (hformed : formed? I args h = some f)
      (hscoped : ∀ function buffer, ¬ decoded.host.Scoped r function buffer)
      (hlen : stk.length = args.length + 1) (hheap : w.heap = decoded) :
      CallEnds r object args h decoded (.ok (.error "out of scope", stk), w)
  | returned {f function buffer stk w} {result : CInt.int.Val} (hformed : formed? I args h = some f)
      (hscoped : decoded.host.Scoped r function buffer) (hlen : stk.length = args.length + 1)
      (hheap : w.heap = { decoded with
          host := { decoded.host with
            filled := decoded.host.filled ++ [⟨function, buffer, f.name, f.stat, f.offset, result⟩] } }) :
      CallEnds r object args h decoded (.ok (.ok (), .integer (CInt.int64_t.wrap result.val) :: stk), w)

theorem impl_call_ends {object : Value} {r : Nat} (args : List Value) {h : Heap (Host X)}
    (hr : h.host.fill_dir? (some object) = some r) :
    CallEnds I r object args h ((decode I .whole stat_steps (args[1]?.getD .nil)).exec ⟨h, zero, []⟩).2.heap
      (((impl_call I filler).run (args.reverse ++ [object])).exec ⟨h, zero, []⟩) := by
  have hcheck := check_fill_dir_args I args (w := ⟨h, (zero : Struct Convert.stat), []⟩) hr
  simp only [impl_call, StateT.run_bind]
  rw [Prog.exec_bind_of_ok hcheck]
  rcases checklstring_args I object args ⟨h, (zero : Struct Convert.stat), []⟩ with
    ⟨s, args', hs, hlen, hsame, hname⟩ | ⟨hs, e, hname⟩
  · have harg1 := hsame 0
    have harg2 := hsame 1
    simp only [Nat.zero_add, Nat.reduceAdd] at harg1 harg2
    rw [Prog.exec_bind_of_ok hname, convert_args, harg1, bind_map_left]
    have hname? : name? I (args[0]?.getD .nil) = some (cstring s) := by rw [name?, hs]; rfl
    rcases hx : (decode I .whole stat_steps (args[1]?.getD .nil)).exec ⟨h, (zero : Struct Convert.stat), []⟩ with
      ⟨e | b, w₁⟩
    · have hstat? : stat? I (args[1]?.getD .nil) h = none := stat?_of_decode I hx
      rw [Prog.exec_bind_of_error hx]
      exact .raised (by simp [formed?, hname?, hstat?]) (Or.inr rfl)
    · have hstat? : stat? I (args[1]?.getD .nil) h = some (if b then some w₁.mem else none) := stat?_of_decode I hx
      rw [Prog.exec_bind_of_ok hx]
      have hread : ((onHost (read .whole) : LuaM (Host X) (Struct Convert.stat) _).run
          (args'.reverse ++ [object])).exec w₁ = (.ok (w₁.mem, args'.reverse ++ [object]), w₁) := rfl
      dsimp only
      rw [Prog.exec_bind_of_ok hread]
      dsimp only
      rcases opt_offset_args I object args' w₁ with ⟨offset, hoffset, hexec⟩ | ⟨hoffset, e, hexec⟩
      · rw [Prog.exec_bind_of_ok hexec]
        rw [harg2] at hoffset
        have hformed : formed? I args h = some ⟨cstring s, if b then some w₁.mem else none, offset⟩ := by
          simp [formed?, hname?, hstat?, hoffset]
        have hstk : (args'.reverse ++ [object]).length = args.length + 1 := by simp [hlen]
        rw [onHost_run, bind_map_left]
        rcases call_exec filler r (cstring s) (if b then some w₁.mem else none) offset w₁ with
          ⟨function, buffer, result, hscoped, hcall⟩ | ⟨hscoped, hcall⟩
        · rw [Prog.exec_bind_of_ok hcall]
          exact .returned hformed hscoped hstk rfl
        · rw [Prog.exec_bind_of_ok hcall]
          exact .thrown hformed hscoped hstk rfl
      · rw [harg2] at hoffset
        rw [Prog.exec_bind_of_error hexec]
        exact .raised (by simp [formed?, hname?, hstat?, hoffset]) (Or.inr rfl)
  · have hformed : formed? I args h = none := by simp [formed?, name?, hs]
    rw [Prog.exec_bind_of_error hname]
    exact .raised hformed (Or.inl rfl)

theorem fill_comes {object : Value} {r : Nat} (args : List Value) {h : Heap (Host X)}
    (hr : h.host.fill_dir? (some object) = some r) :
    Comes I r args h ((decode I .whole stat_steps (args[1]?.getD .nil)).exec ⟨h, zero, []⟩).2.heap
      (fill I filler object args h) := by
  have hends := impl_call_ends I filler args hr
  simp only [fill, hr, closure, StateT.run_bind, lua_gettop_run, pure_bind]
  rcases hx : ((impl_call I filler).run (args.reverse ++ [object])).exec ⟨h, zero, []⟩ with ⟨out, w⟩
  rw [hx] at hends
  cases hends with
  | raised hformed hheap =>
      rw [Prog.exec_bind_of_error hx]
      exact .malformed hformed hheap
  | @thrown f stk w hformed hscoped hlen hheap =>
      have htop : ((args.reverse ++ [object]).length : Int) = stk.length := by simp [hlen]
      have hsettop := lua_settop_run (H := Host X) (M := Struct Convert.stat) stk []
      rw [Prog.exec_bind_of_ok hx, htop]
      simp only [List.nil_append] at hsettop
      simpa [hsettop, Datum.value, Except.map, hheap] using Comes.out_of_scope (r := r) hformed hscoped
  | @returned f function buffer stk w result hformed hscoped hlen hheap =>
      have htop : ((args.reverse ++ [object]).length : Int) = stk.length := by simp [hlen]
      rw [Prog.exec_bind_of_ok hx, htop]
      simpa [Except.map, hheap] using Comes.passed (r := r) hformed hscoped

end DromozoaFuse.Fill
