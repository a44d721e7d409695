import DromozoaFuse.Convert.Lemmas.Stackless
import DromozoaFuse.Lua.Above
import DromozoaFuse.Operations.Callbacks

/-!
# The callbacks without the stack

The operations value, the tables of the converters and the arguments of the handler, in place of the
stack they are on. A callback leaves the stack as it was.
-/

namespace DromozoaFuse.Operations

open Base Lua DromozoaFuse.Bind DromozoaFuse.Convert Fill

variable {X : Type} (I : Interp (Host X))

abbrev StatelessM (X α : Type) : Type := HostM (Host X) Memory α

/-! ## Converters -/

def Converter.fields (c : Converter) (that : Struct c.target.layout) : List (Bytes × Value) :=
  encoded c.target.steps that

theorem Converter.to_table_run (c : Converter) (that : Struct c.target.layout) (stk : List Value) :
    (c.to_table I that : OpM X Int).run stk =
      (fun r => ((stk.length + 1 : Int), .table r :: stk)) <$> build I (c.fields that) := by
  cases c with
  | conn_info => exact convert_conn_info_run I that stk
  | file_info => exact convert_file_info_run I that stk
  | flock => exact convert_flock_run I that stk

theorem Converter.convert_run (c : Converter) {stk : List Value} {index : Int} {o : Value}
    (h : slot stk index = some o) :
    (convert I c.target c.ptr index : OpM X Bool).run stk =
      (fun b => (b, stk)) <$> decode I c.ptr c.target.steps o :=
  from_table_run I c.ptr h c.target.steps

def converting {α : Type} (c : Converter) (index : Int) (body : Nat → StatelessM X α) : StatelessM X α := do
  let r ← build I (c.fields (← read c.ptr))
  record (.constructed index (some (.table r)))
  let a ← body r
  record (.destructed index (some (.table r)))
  let _ ← decode I c.ptr c.target.steps (.table r)
  return a

/-- The tables of the converters in scope. -/
abbrev Tables : Type := List (Converter × Nat)

def converting_all {α : Type} : List Converter → Nat → (Tables → StatelessM X α) → StatelessM X α
  | [], _, body => body []
  | c :: cs, height, body =>
      converting I c (height + 1 : Int) fun r => converting_all cs (height + 1) fun tables => body ((c, r) :: tables)

/-- The indices denote the tables. -/
def Holds (stk : List Value) (indices : Indices) (tables : Tables) : Prop :=
  ∀ c, (indices.lookup c = none ∧ tables.lookup c = none) ∨
    ∃ i r, indices.lookup c = some i ∧ tables.lookup c = some r ∧ 0 < i ∧ slot stk i = some (.table r)

theorem Holds.append {stk : List Value} {indices : Indices} {tables : Tables} (h : Holds stk indices tables)
    (xs : List Value) : Holds (xs ++ stk) indices tables := by
  intro c
  rcases h c with hn | ⟨i, r, hi, hr, hpos, hslot⟩
  · exact Or.inl hn
  · exact Or.inr ⟨i, r, hi, hr, hpos, slot_append hpos hslot xs⟩

theorem Holds.cons {stk : List Value} {indices : Indices} {tables : Tables} {c : Converter} {i : Int} {r : Nat}
    (hpos : 0 < i) (hslot : slot stk i = some (.table r)) (h : Holds stk indices tables) :
    Holds stk ((c, i) :: indices) ((c, r) :: tables) := by
  intro d
  by_cases hd : d = c
  · exact Or.inr ⟨i, r, by simp [hd], by simp [hd], hpos, hslot⟩
  · have hb : (d == c) = false := by simpa using hd
    simpa [List.lookup_cons, hb] using h d

def Tables.value (tables : Tables) (c : Converter) : Value := ((tables.lookup c).map Value.table).getD .nil

theorem Holds.value {stk : List Value} {indices : Indices} {tables : Tables} (h : Holds stk indices tables)
    (c : Converter) : (slot stk (indices.index c)).getD .nil = tables.value c := by
  rcases h c with ⟨hi, hr⟩ | ⟨i, r, hi, hr, -, hslot⟩
  · simp [Indices.index, Tables.value, hi, hr, slot]
  · simp [Indices.index, Tables.value, hi, hr, hslot]

theorem scoped_converter_above {α : Type} {c : Converter} {body : Int → OpM X α} {stk : List Value}
    {body' : Nat → StatelessM X α}
    (h : ∀ r, Above (body (stk.length + 1)) (.table r :: stk) (.table r :: stk) (body' r)) :
    Above (scoped_converter I c body) stk stk (converting I c (stk.length + 1) body') := by
  unfold scoped_converter converting
  refine Above.host_bind fun that => ?_
  refine Above.step (c.to_table_run I that stk) fun r => ?_
  refine Above.pure_bind (StateT.run_get _) ?_
  have hslot : slot (.table r :: stk) ((stk.length : Int) + 1) = some (.table r) := slot_length _ stk
  rw [hslot]
  refine Above.host_bind fun _ => ?_
  refine Above.lower (List.suffix_cons (.table r) stk) ?_
  refine (h r).bind fun a xs => ?_
  refine Above.pure_bind (StateT.run_get _) ?_
  have hslot' := slot_append (by omega) hslot xs
  rw [hslot']
  refine Above.host_bind fun _ => ?_
  refine (Above.of_run (List.suffix_append xs _) (c.convert_run I hslot')).bind fun _ ys => ?_
  exact Above.pure _ (List.suffix_append ys _)

theorem with_converters_above {α : Type} {body : Indices → OpM X α} {body' : Tables → StatelessM X α}
    (cs : List Converter) {stk : List Value}
    (h : ∀ stk' indices tables, stk <:+ stk' → Holds stk' indices tables →
      Above (body indices) stk' stk' (body' tables)) :
    Above (with_converters I cs body) stk stk (converting_all I cs stk.length body') := by
  induction cs generalizing stk body body' with
  | nil => exact h stk [] [] (List.suffix_refl stk) fun c => Or.inl ⟨rfl, rfl⟩
  | cons c cs ih =>
      refine scoped_converter_above I fun r => ?_
      have hlen : (Value.table r :: stk).length = stk.length + 1 := rfl
      rw [← hlen]
      refine ih fun stk' indices tables hsuffix hholds => ?_
      have hslot : slot (.table r :: stk) ((stk.length : Int) + 1) = some (.table r) := slot_length _ stk
      obtain ⟨xs, rfl⟩ := hsuffix
      exact h _ _ _ ((List.suffix_cons _ _).trans (List.suffix_append _ _))
        (hholds.cons (by omega) (slot_append (by omega) hslot xs))

/-! ## Arguments -/

def timespec_fields (t : Struct Convert.timespec) : List (Bytes × Value) :=
  [Convert.timespec_member.tv_sec, .tv_nsec].map fun k => (key (S := Convert.timespec) k, field_value t k)

def make_fill_dir (function buffer : Nat) : StatelessM X Nat := do
  let r ← newref
  let w ← get
  modifyHost (·.set r ⟨some function, some buffer, w.heap.host.registered⟩)
  return r

/-- The arguments, after those in `values`, and the handles in scope, the last one first. -/
def make_args (tables : Tables) : List Arg → List Value → List Nat → StatelessM X (List Value × List Nat)
  | [], values, handles => return (values, handles)
  | .push d :: args, values, handles => make_args tables args (values ++ [d.value]) handles
  | .pushvalue c :: args, values, handles => make_args tables args (values ++ [tables.value c]) handles
  | .fill_dir function buffer :: args, values, handles => do
      let r ← make_fill_dir function buffer
      make_args tables args (values ++ [.userdata r]) (r :: handles)
  | .timespec t :: args, values, handles => do
      let r ← build I (timespec_fields t)
      make_args tables args (values ++ [.table r]) handles

theorem new_fill_dir_run (function buffer : Nat) (stk : List Value) :
    (new_fill_dir function buffer : OpM X Nat).run stk =
      (fun r => (r, .userdata r :: stk)) <$> make_fill_dir function buffer := by
  simp [new_fill_dir, make_fill_dir]

theorem convert_timespec_run (t : Struct Convert.timespec) (stk : List Value) :
    (convert_timespec I t : OpM X Int).run stk =
      (fun r => ((stk.length + 1 : Int), .table r :: stk)) <$> build I (timespec_fields t) :=
  to_table_run I _ t stk

theorem push_args_above {α : Type} {indices : Indices} {tables : Tables} {stk base : List Value}
    (hholds : Holds stk indices tables) {f : List Nat → OpM X α} {z : List Value → List Nat → StatelessM X α}
    (args : List Arg) (values : List Value) (handles : List Nat)
    (h : ∀ vs hs, vs.length = values.length + args.length → Above (f hs) (vs.reverse ++ stk) base (z vs hs)) :
    Above (push_args I indices args handles >>= f) (values.reverse ++ stk) base
      (make_args I tables args values handles >>= fun p => z p.1 p.2) := by
  have hcons : ∀ v, v :: (values.reverse ++ stk) = (values ++ [v]).reverse ++ stk := by simp
  induction args generalizing values handles with
  | nil => simpa [push_args, make_args] using h values handles rfl
  | cons arg args ih =>
      have hlen : ∀ (v : Value) (vs : List Value), vs.length = (values ++ [v]).length + args.length →
          vs.length = values.length + (arg :: args).length := by
        intro v vs hvs
        simp only [List.length_append, List.length_cons, List.length_nil] at hvs ⊢
        omega
      have ih' := fun v handles => ih (values ++ [v]) handles (fun vs hs hvs => h vs hs (hlen v vs hvs)) (by simp)
      cases arg with
      | push d =>
          simp only [push_args, make_args, bind_assoc]
          refine Above.pure_bind (luaX_push_run d _) ?_
          rw [hcons]
          exact ih' d.value handles
      | pushvalue c =>
          simp only [push_args, make_args, bind_assoc]
          refine Above.pure_bind (lua_pushvalue_run _ _) ?_
          rw [(hholds.append values.reverse).value c, hcons]
          exact ih' (tables.value c) handles
      | fill_dir function buffer =>
          simp only [push_args, make_args, bind_assoc]
          refine Above.step (new_fill_dir_run function buffer _) fun r => ?_
          rw [hcons]
          exact ih' (.userdata r) (r :: handles)
      | timespec t =>
          simp only [push_args, make_args, bind_assoc]
          refine Above.step (convert_timespec_run I t _) fun r => ?_
          rw [hcons]
          exact ih' (.table r) handles

/-! ## Results -/

def status (v : Value) : Option CInt.int.Val := (integer? v).map fun i => CInt.int.wrap i.val

/-- What is done with a result that is no integer. -/
def Other.finish (o : Other) (v : Value) : StatelessM X (Option CInt.int.Val) := do
  match o with
  | .nil d => return if v = .nil then some d else none
  | .stat => return if ← decode I stat_ptr stat_steps v then some (CInt.int.wrap 0) else none
  | .statvfs => return if ← decode I statvfs_ptr statvfs_steps v then some (CInt.int.wrap 0) else none
  | o =>
      match I.tolstring v with
      | some s =>
          let w ← get
          modifyMem fun m => { m with buffer := (o.fill s w.mem.buffer).2 }
          return some (o.fill s w.mem.buffer).1
      | none => return none

def Other.answer (o : Other) : Except Value Value → StatelessM X CInt.int.Val
  | .ok v =>
      match status v with
      | some i => return i
      | none => do
          match ← o.finish I v with
          | some i => return i
          | none => UNEXPECTED (some (bytes o.what)); return ENOSYS
  | .error e =>
      match status e with
      | some i => return i
      | none => do UNEXPECTED (I.tolstring e); return ENOSYS

def notified {α : Type} (a : α) : Except Value Value → StatelessM X α
  | .ok _ => return a
  | .error e => do UNEXPECTED (I.tolstring e); return a

def Finish.answer : Finish → Except Value Value → StatelessM X Returned
  | .reply o, result => do return .int (← o.answer I result)
  | .init, result => notified I .self result
  | .destroy, result => notified I .void result

theorem Other.fill_run_above (o : Other) (v : Value) (stk : List Value) :
    Above (do
      match ← luaX_to_string I (-1) with
      | some s =>
          let m ← onHost get
          let (status, buffer) := o.fill s m.mem.buffer
          onHost (modifyMem fun m => { m with buffer })
          return some status
      | none => return none : OpM X (Option CInt.int.Val)) (v :: stk) stk
    (match I.tolstring v with
      | some s => do
          let w ← get
          modifyMem fun m => { m with buffer := (o.fill s w.mem.buffer).2 }
          return some (o.fill s w.mem.buffer).1
      | none => return none) := by
  refine Above.pure_bind (lua_tolstring_run I stk v) ?_
  cases I.tolstring v with
  | none => exact Above.pure _ (List.suffix_cons _ _)
  | some s =>
      refine Above.host_bind fun w => ?_
      refine Above.host_bind fun _ => ?_
      exact Above.pure _ (List.suffix_cons _ _)

theorem Other.run_above (o : Other) (v : Value) (stk : List Value) :
    Above (o.run I) (v :: stk) stk (o.finish I v) := by
  have hslot : slot (v :: stk) (-1) = some v := rfl
  have hsuffix : stk <:+ v :: stk := List.suffix_cons v stk
  cases o with
  | nil d => exact Above.of_run hsuffix (by simp [run, finish])
  | stat =>
      refine (Above.of_run hsuffix (from_table_run I stat_ptr hslot stat_steps)).bind fun b xs => ?_
      exact Above.pure _ (List.suffix_append xs stk)
  | statvfs =>
      refine (Above.of_run hsuffix (from_table_run I statvfs_ptr hslot statvfs_steps)).bind fun b xs => ?_
      exact Above.pure _ (List.suffix_append xs stk)
  | readlink size => exact fill_run_above I (.readlink size) v stk
  | read size => exact fill_run_above I (.read size) v stk
  | xattr size => exact fill_run_above I (.xattr size) v stk

theorem status_above {v : Value} {stk s : List Value} {x : OpM X CInt.int.Val} {y : StatelessM X CInt.int.Val}
    (h : Above x (v :: s) stk y) (hs : stk <:+ v :: s) :
    Above (do
      if ← luaX_is_integer I (-1) then
        return CInt.int.wrap (← lua_tointeger I (-1)).val
      x) (v :: s) stk
    (match status v with
      | some i => return i
      | none => y) := by
  refine Above.pure_bind (luaX_is_integer_run I v s) ?_
  unfold status
  cases hv : integer? v with
  | none => exact h
  | some i =>
      refine Above.pure_bind (lua_tointeger_run I (v :: s) (-1)) ?_
      have hi : I.tointeger ((slot (v :: s) (-1)).getD .nil) = i := tointeger_of_integer? I hv
      rw [hi]
      exact Above.pure _ hs

theorem reply_above (o : Other) (f : Value) (args stk : List Value) :
    Above (reply I args.length o.what (o.run I)) (args.reverse ++ f :: stk) stk
      (do o.answer I (← I.pcall f args)) := by
  refine Above.step (lua_pcall_run I stk f args 1) fun result => ?_
  cases result with
  | ok v =>
      refine status_above I (v := v) ?_ (List.suffix_cons v stk)
      refine (o.run_above I v stk).bind fun i xs => ?_
      cases i with
      | some i => exact Above.pure _ (List.suffix_append xs stk)
      | none => exact Above.host_bind fun _ => Above.pure _ (List.suffix_append xs stk)
  | error e =>
      refine status_above I (v := e) ?_ (List.suffix_cons e stk)
      refine Above.pure_bind (lua_tolstring_run I stk e) ?_
      exact Above.host_bind fun _ => Above.pure _ (List.suffix_cons _ stk)

theorem notify_above {α : Type} (a : α) (f : Value) (args stk : List Value) :
    Above (do notify I args.length; return a : OpM X α) (args.reverse ++ f :: stk) stk
      (do notified I a (← I.pcall f args)) := by
  unfold notify
  simp only [bind_assoc]
  refine Above.step (lua_pcall_run I stk f args 0) fun result => ?_
  cases result with
  | ok v => exact Above.pure _ (List.suffix_refl stk)
  | error e =>
      simp only [outcome, ne_eq, OfNat.ofNat_ne_zero, not_false_eq_true, if_true, bind_assoc]
      refine Above.pure_bind (lua_tolstring_run I stk e) ?_
      exact Above.host_bind fun _ => Above.pure _ (List.suffix_cons _ stk)

theorem Finish.run_above (finish : Finish) (f : Value) (args stk : List Value) :
    Above (finish.run I args.length) (args.reverse ++ f :: stk) stk (do finish.answer I (← I.pcall f args)) := by
  cases finish with
  | reply o =>
      have h := (reply_above I o f args stk).bind (f := fun i => (pure (.int i) : OpM X Returned))
        fun i xs => Above.pure _ (List.suffix_append xs stk)
      simpa [run, answer] using h
  | init => exact notify_above I Returned.self f args stk
  | destroy => exact notify_above I Returned.void f args stk

/-! ## Callbacks -/

def Callback.inner (c : Callback) (ops : Value) (tables : Tables) : StatelessM X Returned := do
  let f ← I.gettable ops (.string (bytes c.name))
  if f = .nil then return c.finish.missing
  else
    let (args, handles) ← make_args I tables c.args [ops] []
    let returned ← c.finish.answer I (← I.pcall f args)
    handles.forM reset
    return returned

def Callback.scope (c : Callback) (height : Nat) (ops : Value) : StatelessM X Returned :=
  converting_all I c.converters height (c.inner I ops)

/-- A callback counts the arguments of its protected call right. -/
def Callback.Counted (c : Callback) : Prop := c.nargs = c.args.length + 1

theorem Callback.body_above {c : Callback} (hc : c.Counted) {save : Int} {ops : Value} {stk : List Value}
    {indices : Indices} {tables : Tables} (hpos : 0 < save) (hops : slot stk save = some ops)
    (hholds : Holds stk indices tables) : Above (c.body I save indices) stk stk (c.inner I ops tables) := by
  unfold body inner prepare
  simp only [bind_assoc]
  refine Above.step (luaX_get_field_run I hops (bytes c.name)) fun f => ?_
  by_cases hf : f = .nil
  · simp only [hf, Value.type, ne_eq, not_true_eq_false, if_false, if_true, pure_bind]
    exact Above.pure _ (List.suffix_cons _ stk)
  · have htype : f.type ≠ .nil := fun h => hf (Value.type_eq_nil.mp h)
    simp only [hf, htype, ne_eq, not_false_eq_true, if_true, if_false, bind_assoc, pure_bind]
    refine Above.pure_bind (lua_pushvalue_run (f :: stk) save) ?_
    rw [slot_cons hpos hops f, Option.getD_some]
    refine push_args_above I (z := fun vs hs => do
      let returned ← c.finish.answer I (← I.pcall f vs)
      hs.forM reset
      return returned) (hholds.append [f]) c.args [ops] [] fun vs hs hlen => ?_
    have hn : c.nargs = vs.length := by rw [hc, hlen, List.length_singleton, Nat.add_comm]
    rw [hn]
    simp only [← bind_assoc (I.pcall f vs)]
    refine (c.finish.run_above I f vs stk).bind fun returned xs => ?_
    have hreset : (hs.forM fun h => (onHost (reset h) : OpM X Unit)).run (xs ++ stk) =
        (fun _ => ((), xs ++ stk)) <$> hs.forM reset := forM_run hs fun h _ => onHost_run _ _
    exact (Above.of_run (List.suffix_append xs stk) hreset).bind fun _ ys => Above.pure _ (List.suffix_append ys stk)

theorem Callback.run_eq {c : Callback} (hc : c.Counted) (ops : Value) (stk : List Value) :
    (c.run I : OpM X Returned).run (ops :: stk) =
      (fun r => (r, ops :: stk)) <$> c.scope I (stk.length + 1) ops := by
  have hslot : slot (ops :: stk) ((stk.length : Int) + 1) = some ops := slot_length ops stk
  have hbody : ∀ stk' indices tables, (ops :: stk) <:+ stk' → Holds stk' indices tables →
      Above (c.body I (stk.length + 1) indices) stk' stk' (c.inner I ops tables) := by
    intro stk' indices tables hsuffix hholds
    obtain ⟨xs, rfl⟩ := hsuffix
    exact body_above I hc (by omega) (slot_append (by omega) hslot xs) hholds
  have habove := with_converters_above I c.converters hbody
  exact habove.settop_run

/-- A callback on a managed state whose stack has the operations value on its top. -/
theorem callback_run {c : Callback} (hc : c.Counted) (ops : Value) (stk : List Value) :
    (callback I c : OpM X Returned).run (ops :: stk) =
      (fun r => (r, ops :: stk)) <$> (do
        record (.opened (ops :: stk))
        let r ← c.scope I (stk.length + 1) ops
        record (.closed (ops :: stk))
        return r) := by
  simp [callback, managed_state, c.run_eq I hc]

theorem Invocation.callback_counted (inv : Invocation) : inv.callback.Counted := by
  cases inv with
  | utimens path times => cases times <;> rfl
  | _ => rfl

end DromozoaFuse.Operations
