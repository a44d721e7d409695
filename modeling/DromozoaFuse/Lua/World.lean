import DromozoaFuse.Base.Prog
import DromozoaFuse.Lua.Value
import Mathlib.Logic.Function.Basic

/-!
# What a C program and the scripts it runs share

The heap belongs to both, the C memory `M` to the program alone. What scripts do is a parameter, the
interpreter: calling a value and running a metamethod are arbitrary functions of the heap, but for the
tables that no script has been given. The trace records every answer that an indexing operation or a
protected call of the program got, and where the program stood.
-/

namespace DromozoaFuse.Lua

open Base

/-- A table. The events of one with a metatable are answered by the interpreter. `shared` says that a
script may have the table: it made the table or was given it. -/
structure Table where
  fields : Bytes → Value
  metatable : Bool
  shared : Bool

def Table.empty : Table := ⟨fun _ => .nil, false, false⟩

def Table.set (t : Table) (k : Bytes) (v : Value) : Table :=
  { t with fields := Function.update t.fields k v }

@[simp] theorem Table.set_fields (t : Table) (k : Bytes) (v : Value) :
    (t.set k v).fields = Function.update t.fields k v := rfl

@[simp] theorem Table.set_metatable (t : Table) (k : Bytes) (v : Value) :
    (t.set k v).metatable = t.metatable := rfl

@[simp] theorem Table.set_shared (t : Table) (k : Bytes) (v : Value) : (t.set k v).shared = t.shared := rfl

/-- The tables by reference, the next free reference, and everything else scripts keep. -/
structure Heap (H : Type) where
  tables : Nat → Table
  next : Nat
  host : H

/-- One interaction with scripts, or a point of a program that is of interest: a converter's
constructor or destructor, with the index it keeps and the value there, and a state handed out or
back, with its stack. -/
inductive Event
  | read (object key : Value) (reply : Except Value Value)
  | pcall (function : Value) (args : List Value) (reply : Except Value Value)
  | constructed (index : Int) (value : Option Value)
  | destructed (index : Int) (value : Option Value)
  | opened (stack : List Value)
  | closed (stack : List Value)
  deriving DecidableEq

def Event.isRead : Event → Bool
  | .read .. => true
  | _ => false

/-- The key that was looked up. -/
def Event.key? : Event → Option Value
  | .read _ key _ => some key
  | _ => none

structure World (H M : Type) where
  heap : Heap H
  mem : M
  trace : List Event

def recorded {H M : Type} (w w' : World H M) : List Event := w'.trace.drop w.trace.length

theorem recorded_eq {H M : Type} {w w' : World H M} {ev : List Event} (h : w'.trace = w.trace ++ ev) :
    recorded w w' = ev := by
  simp [recorded, h]

theorem mem_recorded {H M : Type} {w w₁ w' : World H M} {e : Event} (h : w.trace <+: w₁.trace)
    (h' : w₁.trace ++ [e] <+: w'.trace) : e ∈ recorded w w' := by
  obtain ⟨ev, htr⟩ := h
  obtain ⟨ev', htr'⟩ := h'
  have hrec : recorded w w' = ev ++ [e] ++ ev' := recorded_eq (by rw [← htr', ← htr]; simp)
  simp [hrec]

/-- What scripts may do to the heap: no reference is used again, and no table changes that they have
not got. -/
structure Heap.Scripted {H : Type} (h h' : Heap H) : Prop where
  next : h.next ≤ h'.next
  unshared : ∀ r, r < h.next → (h.tables r).shared = false → h'.tables r = h.tables r

theorem Heap.Scripted.refl {H : Type} (h : Heap H) : h.Scripted h := ⟨Nat.le_refl _, fun _ _ _ => rfl⟩

theorem Heap.Scripted.trans {H : Type} {h h' h'' : Heap H} (h₁ : h.Scripted h') (h₂ : h'.Scripted h'') :
    h.Scripted h'' := by
  refine ⟨Nat.le_trans h₁.next h₂.next, fun r hr hs => ?_⟩
  have heq := h₁.unshared r hr hs
  rw [← heq]
  exact h₂.unshared r (Nat.lt_of_lt_of_le hr h₁.next) (heq ▸ hs)

/-- The scripts, and the parts of Lua that convert between numbers and texts or tell where a program
stands. -/
structure Interp (H : Type) where
  call : Value → List Value → Heap H → Except Value Value × Heap H
  index : Value → Value → Heap H → Except Value Value × Heap H
  newindex : Value → Value → Value → Heap H → Except Value Unit × Heap H
  str2number : Bytes → Option Number
  number2str : Number → Bytes
  position : Heap H → Bytes
  argerror : Heap H → Nat → Bytes → Bytes
  typename : Heap H → Option Value → Bytes
  call_scripted : ∀ f args (h : Heap H), h.Scripted (call f args h).2
  index_scripted : ∀ o k (h : Heap H), h.Scripted (index o k h).2
  newindex_scripted : ∀ o k v (h : Heap H), h.Scripted (newindex o k v h).2

/-- Programs that raise Lua values. -/
abbrev HostM (H M α : Type) : Type := Prog Value (World H M) α

variable {H M : Type} (I : Interp H)

/-! ## Tables -/

def Heap.set (h : Heap H) (r : Nat) (t : Table) : Heap H :=
  { h with tables := Function.update h.tables r t }

@[simp] theorem Heap.set_tables (h : Heap H) (r : Nat) (t : Table) : (h.set r t).tables r = t :=
  Function.update_self ..

@[simp] theorem Heap.set_set (h : Heap H) (r : Nat) (t u : Table) : (h.set r t).set r u = h.set r u := by
  simp [Heap.set]

/-- The field of a table that has it or that has no metatable to ask. -/
def Heap.rawget (h : Heap H) : Value → Value → Option Value
  | .table r, .string k =>
      let v := (h.tables r).fields k
      if v = .nil ∧ (h.tables r).metatable then none else some v
  | _, _ => none

def Interp.lookup (object key : Value) (h : Heap H) : Except Value Value × Heap H :=
  match h.rawget object key with
  | some v => (.ok v, h)
  | none => I.index object key h

theorem Interp.lookup_scripted (object key : Value) (h : Heap H) :
    h.Scripted (I.lookup object key h).2 := by
  unfold Interp.lookup
  split
  · exact .refl h
  · exact I.index_scripted object key h

def Interp.gettable (object key : Value) : HostM H M Value :=
  .lift fun w =>
    let (reply, heap) := I.lookup object key w.heap
    (reply, { w with heap, trace := w.trace ++ [.read object key reply] })

def Interp.settable (object key value : Value) : HostM H M Unit :=
  .lift fun w =>
    match object, key with
    | .table r, .string k =>
        if (w.heap.tables r).metatable then
          let (reply, heap) := I.newindex object key value w.heap
          (reply, { w with heap })
        else (.ok (), { w with heap := w.heap.set r ((w.heap.tables r).set k value) })
    | _, _ =>
        let (reply, heap) := I.newindex object key value w.heap
        (reply, { w with heap })

def newref : HostM H M Nat :=
  .lift fun w => (.ok w.heap.next, { w with heap := { w.heap with next := w.heap.next + 1 } })

def newtable : HostM H M Nat := do
  let r ← newref
  modify fun w => { w with heap := w.heap.set r .empty }
  return r

/-- The heap after the values have been given to a script. -/
def Heap.share (h : Heap H) (values : List Value) : Heap H :=
  { h with tables := fun r => if .table r ∈ values then { h.tables r with shared := true } else h.tables r }

def Interp.pcall (function : Value) (args : List Value) : HostM H M (Except Value Value) :=
  .lift fun w =>
    let (reply, heap) := I.call function args (w.heap.share args)
    (.ok reply, { w with heap, trace := w.trace ++ [.pcall function args reply] })

def modifyMem (f : M → M) : HostM H M Unit := modify fun w => { w with mem := f w.mem }

@[simp] theorem exec_modifyMem (f : M → M) (w : World H M) :
    (modifyMem f).exec w = (.ok (), { w with mem := f w.mem }) := rfl

def record (e : Event) : HostM H M Unit := modify fun w => { w with trace := w.trace ++ [e] }

@[simp] theorem exec_record (e : Event) (w : World H M) :
    (record e).exec w = (.ok (), { w with trace := w.trace ++ [e] }) := rfl

/-- An interpreter whose functions all reply the same and change nothing. -/
def Interp.constant {H : Type} (reply : Except Value Value) : Interp H where
  call _ _ h := (reply, h)
  index _ _ h := (.ok .nil, h)
  newindex _ _ _ h := (.ok (), h)
  str2number _ := none
  number2str _ := []
  position _ := []
  argerror _ _ what := what
  typename _ _ := []
  call_scripted _ _ h := .refl h
  index_scripted _ _ h := .refl h
  newindex_scripted _ _ _ h := .refl h

def Interp.idle {H : Type} : Interp H := .constant (.ok .nil)

/-- A world with one table, made by a script and without a metatable. -/
def World.single {H M : Type} (fields : Bytes → Value) (host : H) (mem : M) : World H M where
  heap := ⟨fun _ => ⟨fields, false, true⟩, 1, host⟩
  mem := mem
  trace := []

/-! ## Numbers and strings -/

/-- `lua_tonumberx`: numbers, and the strings that can be converted to one. -/
def Interp.tonumber : Value → Option Number
  | .number n => some n
  | .string s => I.str2number s
  | _ => none

@[simp] theorem Interp.tonumber_number (n : Number) : I.tonumber (.number n) = some n := rfl

@[simp] theorem Interp.tonumber_nil : I.tonumber .nil = none := rfl

/-- `lua_tointeger`: 0 where there is no exact integer. -/
def Interp.tointeger (v : Value) : CInt.int64_t.Val :=
  ((I.tonumber v).bind Number.toInteger?).getD (CInt.int64_t.wrap 0)

/-- `lua_tolstring`: strings, and the texts of numbers. -/
def Interp.tolstring : Value → Option Bytes
  | .number n => some (I.number2str n)
  | .string s => some s
  | _ => none

end DromozoaFuse.Lua
