import DromozoaFuse.Convert.Records
import DromozoaFuse.Operations.Handles
import DromozoaFuse.Operations.Results

/-!
# Services

A file system without its scripts, as a machine that libfuse asks: for every callback it has a status or what was
asked for, and with them what becomes of the structs that libfuse passes and the names in a directory. Scripts
implement a service where their replies stand for what it has to say.
-/

namespace DromozoaFuse.Operations

open Base Lua DromozoaFuse.Bind DromozoaFuse.Convert Fill

/-! ## What a service says -/

/-- A string whose length is a status. -/
structure Text where
  bytes : Bytes
  small : CInt.int.Mem bytes.length

def Text.length (v : Text) : CInt.int.Val := ⟨v.bytes.length, v.small⟩

/-- A status, or what was asked for. -/
inductive Content
  | status (i : CInt.int.Val)
  | text (v : Text)
  | stat (that : Struct Convert.stat)
  | statvfs (that : Struct Convert.statvfs)

/-- The content is an answer of the operation. A `read` gives no more than there is room for. -/
def Content.Apt : Content → Other → Prop
  | .status _, _ | .text _, .readlink _ | .text _, .xattr _ | .stat _, .stat | .statvfs _, .statvfs => True
  | .text v, .read size => v.length.val ≤ size.val
  | .text _, _ | .stat _, _ | .statvfs _, _ => False

/-- The structs of the converters as they are to be left, and the calls of the directory filler. -/
structure Outcome where
  content : Content
  structs : (c : Converter) → Struct c.target.layout
  entries : List Entry

/-- What there is to say where there is no handler. -/
def Outcome.missing (m : Memory) : Outcome := ⟨.status ENOSYS, fun c => c.ptr.get m, []⟩

structure Service (σ : Type) where
  serve : Invocation → Memory → σ → Outcome × σ
  apt : ∀ inv m s o, inv.callback.finish = .reply o → (serve inv m s).1.content.Apt o

/-! ## What libfuse gets -/

/-- The string, and zeros after it as far as the buffer has room. -/
def padded (v : Bytes) (size : CInt.size_t.Val) (buffer : Nat → UInt8) : Nat → UInt8 :=
  fun i => if i < size.val.toNat then v.getD i 0 else buffer i

/-- An attribute is asked for with a buffer of size 0 for its length, and a buffer that is too small is left alone. -/
def Text.told (v : Text) : Other → (Nat → UInt8) → CInt.int.Val × (Nat → UInt8)
  | .readlink size, buffer => (CInt.int.wrap 0, padded (v.bytes.take (size.val - 1).toNat) size buffer)
  | .read size, buffer => (v.length, padded v.bytes size buffer)
  | .xattr size, buffer =>
      if size.val = 0 then (v.length, buffer)
      else if size.val < v.length.val then (ERANGE, buffer)
      else (v.length, padded v.bytes size buffer)
  | _, buffer => (ENOSYS, buffer)

def Content.told : Content → Other → Memory → CInt.int.Val × Memory
  | .status i, _, m => (i, m)
  | .text v, o, m => ((v.told o m.buffer).1, { m with buffer := (v.told o m.buffer).2 })
  | .stat that, _, m => (CInt.int.wrap 0, { m with stat := that })
  | .statvfs that, _, m => (CInt.int.wrap 0, { m with statvfs := that })

def Finish.told (content : Content) : Finish → Memory → Returned × Memory
  | .reply o, m => (.int (content.told o m).1, (content.told o m).2)
  | .init, m => (.self, m)
  | .destroy, m => (.void, m)

def settled (structs : (c : Converter) → Struct c.target.layout) (cs : List Converter) (m : Memory) : Memory :=
  cs.foldr (fun c m => c.ptr.set m (structs c)) m

/-- What a callback returns, the memory of libfuse after it, and the names that it has filled in. -/
structure Answer where
  returned : Returned
  mem : Memory
  entries : List Entry

variable {σ X : Type}

def Outcome.answer (o : Outcome) (inv : Invocation) (m : Memory) : Answer where
  returned := (inv.callback.finish.told o.content m).1
  mem := settled o.structs inv.callback.converters (inv.callback.finish.told o.content m).2
  entries := o.entries

def Service.answer (A : Service σ) (s : σ) (a : Invocation × Memory) : Answer × σ :=
  ((A.serve a.1 a.2 s).1.answer a.1 a.2, (A.serve a.1 a.2 s).2)

/-! ## What scripts reply -/

variable (I : Interp (Host X))

/-- The reply is the number, returned or raised. -/
def Numbers (n : CInt.int.Val) (reply : Except Value Value) : Prop :=
  ∃ v, (reply = .ok v ∨ reply = .error v) ∧ (integer? v).map CInt.Val.val = some n.val

/-- The reply stands for the content. Where there is a default, nil does for it, and the length of an attribute is a
number. -/
def Content.Replied (reply : Except Value Value) (h : Heap (Host X)) : Content → Other → Prop
  | .status i, .nil d => Numbers i reply ∨ reply = .ok .nil ∧ i = d
  | .status i, _ => Numbers i reply
  | .text v, .xattr size => if size.val = 0 then Numbers v.length reply else reply = .ok (.string v.bytes)
  | .text v, _ => reply = .ok (.string v.bytes)
  | .stat that, _ => ∃ r, reply = .ok (.table r) ∧ StatOf I h r that
  | .statvfs that, _ => ∃ r, reply = .ok (.table r) ∧ StatvfsOf h r that

/-- Nobody is told what `init` and `destroy` return, as long as they raise no error. -/
def Finish.Replied (reply : Except Value Value) (h : Heap (Host X)) (content : Content) : Finish → Prop
  | .reply o => content.Replied I reply h o
  | .init | .destroy => ∃ v, reply = .ok v

/-- The table of a struct has the fields that some assignments make, and the struct is what they leave of it. -/
def Converter.Left (m : Memory) (structs : (c : Converter) → Struct c.target.layout) (h : Heap (Host X))
    (c : Converter) (t : Nat) : Prop :=
  (h.tables t).metatable = false ∧ ∃ assignments, (∀ field ∈ assignments, Allowed c.target field) ∧
    (h.tables t).fields = (c.assigned m assignments).fields ∧
    WrittenBack c.target assignments (c.ptr.get m) (structs c)

def Arg.Left (m : Memory) (structs : (c : Converter) → Struct c.target.layout) (h : Heap (Host X)) :
    Arg → Value → Prop
  | .pushvalue c, v => ∃ t, v = .table t ∧ c.Left m structs h t
  | _, _ => True

/-- New objects, and any fillers: nothing that scripts keep has changed. -/
structure Undisturbed (h h' : Heap (Host X)) : Prop where
  next : h.next ≤ h'.next
  tables : ∀ r, r < h.next → h'.tables r = h.tables r
  registered : h'.host.registered = h.host.registered
  scripts : h'.host.scripts = h.host.scripts

/-- What a handler makes of its call stands for the outcome. -/
structure Outcome.Met (o : Outcome) (inv : Invocation) (m : Memory) (args : List Value) (h : Heap (Host X))
    (out : Except Value Value × Heap (Host X)) : Prop where
  replied : inv.callback.finish.Replied I out.1 out.2 o.content
  left : List.Forall₂ (Arg.Left m o.structs out.2) (inv.parameters.flatMap Parameter.args) args
  filled : out.2.host.filled = h.host.filled ++ o.entries

/-- Scripts implement a service where the heap stands for a state of it, as long as `R` says so. A handler gets the
parameters and does what the service says, which is nothing where there is no handler. -/
structure Implements (ops : Value) (R : Heap (Host X) → σ → Prop) (A : Service σ) : Prop where
  undisturbed : ∀ h h' s, R h s → Undisturbed h h' → R h' s
  found : ∀ h s, R h s → ∀ n : Operation, ∃ f, (I.lookup ops (.string (bytes n.name)) h).1 = .ok f ∧
    R (I.lookup ops (.string (bytes n.name)) h).2 s ∧
    (I.lookup ops (.string (bytes n.name)) h).2.host.filled = h.host.filled
  missing : ∀ h s, R h s → ∀ inv : Invocation,
    (I.lookup ops (.string (bytes inv.callback.name)) h).1 = .ok .nil → ∀ m, A.serve inv m s = (.missing m, s)
  called : ∀ h s, R h s → ∀ (inv : Invocation) (m : Memory), inv.Roomy → Fitting m → ∀ f h₁ args,
    (I.lookup ops (.string (bytes inv.callback.name)) h).1 = .ok f → f ≠ .nil →
    Grown (I.lookup ops (.string (bytes inv.callback.name)) h).2 h₁ → R h₁ s →
    List.Forall₂ (Arg.Passed m h₁) (inv.parameters.flatMap Parameter.args) args →
    (A.serve inv m s).1.Met I inv m args h₁ (I.call f (ops :: args) (h₁.share (ops :: args))) ∧
      R (I.call f (ops :: args) (h₁.share (ops :: args))).2 (A.serve inv m s).2

end DromozoaFuse.Operations
