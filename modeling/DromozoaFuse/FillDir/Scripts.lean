import DromozoaFuse.Convert.Lemmas.Stackless
import DromozoaFuse.FillDir.FillDir

/-!
# Scripts that call fillers

What scripts do to a state comes down to changes of their own and to calls of fillers, one after the other.
The scripts' part of a state keeps a record of these calls, in the order in which they end: a call that the
metamethods of its arguments make comes before the call itself.
-/

namespace DromozoaFuse.Fill

open Base Lua DromozoaFuse.Bind DromozoaFuse.Convert

/-! ## Well-formed arguments -/

/-- What well-formed arguments stand for: the name up to its first NUL, the attributes or null, and the
offset. -/
structure Formed where
  name : Bytes
  stat : Option (Struct Convert.stat)
  offset : CInt.off_t.Val

section

variable {X : Type} (I : Interp (Host X))

def name? (v : Value) : Option Bytes := (I.tolstring v).map cstring

def stat? (v : Value) (h : Heap (Host X)) : Option (Option (Struct Convert.stat)) :=
  match v with
  | .table r =>
      match (decode I .whole stat_steps (.table r)).exec ⟨h, zero, []⟩ with
      | (.ok _, w) => some (some w.mem)
      | (.error _, _) => none
  | _ => some none

def offset? (v : Value) : Option CInt.off_t.Val :=
  match v with
  | .nil => some (CInt.off_t.wrap 0)
  | v =>
      ((I.tonumber v).bind Number.toInteger?).bind fun i =>
        if CInt.off_t.min ≤ i.val ∧ i.val ≤ CInt.off_t.max then some (CInt.off_t.wrap i.val) else none

/-- What the arguments of a call in a heap stand for, if they are well formed. -/
def formed? (args : List Value) (h : Heap (Host X)) : Option Formed := do
  let name ← name? I (args[0]?.getD .nil)
  let stat ← stat? I (args[1]?.getD .nil) h
  let offset ← offset? I (args[2]?.getD .nil)
  return ⟨name, stat, offset⟩

end

/-! ## The record of the calls -/

/-- A call of the filler with a reference, and what the script got. -/
structure Call where
  handle : Nat
  formed : Option Formed
  reply : Except Value (List Value)

/-- What scripts keep, with the calls so far, oldest first. -/
structure Logged (X : Type) where
  scripts : X
  calls : List Call

variable {X : Type}

def Host.calls (host : Host (Logged X)) : List Call := host.scripts.calls

def Host.log (host : Host (Logged X)) (c : Call) : Host (Logged X) :=
  { host with scripts := { host.scripts with calls := host.scripts.calls ++ [c] } }

def fill_logged (I : Interp (Host (Logged X))) (filler : Filler) (handle : Nat) (args : List Value)
    (h : Heap (Host (Logged X))) : Except Value (List Value) × Heap (Host (Logged X)) :=
  let (reply, h') := fill I filler (.userdata handle) args h
  (reply, { h' with host := h'.host.log ⟨handle, formed? I args h, reply⟩ })

/-! ## What scripts do -/

/-- A change that has nothing to do with fillers. -/
structure Own (h h' : Heap (Host (Logged X))) : Prop where
  fill_dirs : h'.host.fill_dirs = h.host.fill_dirs
  registered : h'.host.registered = h.host.registered
  filled : h'.host.filled = h.host.filled
  calls : h'.host.calls = h.host.calls

/-- Own changes and calls of fillers. The metamethods that a filler runs are those of `J`. -/
inductive Plays (J : Interp (Host (Logged X))) (filler : Filler) :
    Heap (Host (Logged X)) → Heap (Host (Logged X)) → Prop
  | own {h h'} : Own h h' → Plays J filler h h'
  | fill {h handle} (args) : (h.host.fill_dirs handle).isSome = true →
      Plays J filler h (fill_logged J filler handle args h).2
  | trans {h h₁ h'} : Plays J filler h h₁ → Plays J filler h₁ h' → Plays J filler h h'

/-- Scripts that keep their hands off the fillers. Lua bounds how deep C functions are nested: at the last level
scripts call no fillers, and the metamethods that a filler runs are one level down. -/
inductive Confined (filler : Filler) : Interp (Host (Logged X)) → Prop
  | last {I : Interp (Host (Logged X))} (hcall : ∀ f args h, Own h (I.call f args h).2)
      (hindex : ∀ o k h, Own h (I.index o k h).2) : Confined filler I
  | level {I J : Interp (Host (Logged X))} (hJ : Confined filler J)
      (hcall : ∀ f args h, Plays J filler h (I.call f args h).2)
      (hindex : ∀ o k h, Plays J filler h (I.index o k h).2) : Confined filler I

/-! ## What the record says -/

/-- The function and the buffer of the `readdir` whose handler has been called, and the reference of its
filler. -/
structure Active where
  handle : Nat
  function : Nat
  buffer : Nat

/-- What the calls in a record have come to, while the filler of `scope` is the only one that is in scope. A call
with malformed arguments has raised an error; a well-formed call of another filler has been told that it is out of
scope; and the others, which have got what the function returned, are the calls of the function, in this
order. -/
inductive Recorded (scope : Option Active) : List Call → List Entry → Prop
  | nil : Recorded scope [] []
  | malformed {calls entries handle e} : Recorded scope calls entries →
      Recorded scope (calls ++ [⟨handle, none, .error e⟩]) entries
  | out_of_scope {calls entries handle formed} : Recorded scope calls entries →
      (∀ a, scope = some a → a.handle ≠ handle) →
      Recorded scope (calls ++ [⟨handle, some formed, .ok [.nil, .string (bytes "out of scope")]⟩]) entries
  | passed {calls entries a formed result} : Recorded scope calls entries → scope = some a →
      Recorded scope (calls ++ [⟨a.handle, some formed, .ok [.integer (CInt.int64_t.wrap result.val)]⟩])
        (entries ++ [⟨a.function, a.buffer, formed.name, formed.stat, formed.offset, result⟩])

/-- Between two states, what the fillers have been called with and what has come of it is on record. -/
def Between (scope : Option Active) (host host' : Host (Logged X)) : Prop :=
  ∃ calls entries, host'.calls = host.calls ++ calls ∧ host'.filled = host.filled ++ entries ∧
    Recorded scope calls entries

end DromozoaFuse.Fill
