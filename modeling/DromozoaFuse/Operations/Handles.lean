import DromozoaFuse.Base.Run
import DromozoaFuse.Operations.Frame
import DromozoaFuse.Operations.Structs

/-!
# File handles

The handle of an open file is 0, or what an earlier callback has left in the `struct fuse_file_info` that libfuse
gave to it. Whatever the handlers of all the callbacks do, it stays below 2⁶³, so that a table with it can always be
converted back.
-/

namespace DromozoaFuse.Operations

open Base Lua DromozoaFuse.Bind DromozoaFuse.Convert Fill

variable {X : Type} {I : Interp (Host X)}

/-- An integer of Lua is below 2⁶³. -/
theorem field_integer_lt {d : CInt.uint64_t.Val} {max : Int} {v : Value} {i : CInt.uint64_t.Val}
    (h : field_integer I CInt.uint64_t d 0 max v = .ok i) : i.val < 2 ^ 63 := by
  unfold field_integer at h
  split at h
  · cases h
  · rename_i source _
    rw [luaX_integer_traits_convert_eq fun _ => Int.le_refl 0] at h
    split at h
    · rename_i target hconvert
      obtain ⟨⟨hnonneg, -⟩, htarget⟩ := Option.ite_none_right_eq_some.mp hconvert
      cases h
      have hsource := source.mem
      have hmem : CInt.uint64_t.Mem source.val := by
        simp only [CInt.Mem, CInt.min, CInt.max, CInt.card, CInt.unsigned_long, CInt.long] at hsource ⊢
        norm_num at hsource ⊢
        omega
      have hval : i.val = source.val := by rw [← Option.some.inj htarget, CInt.wrap_of_mem hmem]
      rw [hval]
      simp only [CInt.Mem, CInt.min, CInt.max, CInt.card, CInt.long] at hsource
      norm_num at hsource ⊢
      omega
    · cases h

def Memory.fh (m : Memory) : CInt.uint64_t.Val := m.file_info .fh

def Fitting (m : Memory) : Prop := m.fh.val < 2 ^ 63

/-- A member that is no bit-field holds what is assigned to it. -/
theorem assign_val {S : Layout} {k : S.Member} (hk : S.store k = S.type k) (that : Struct S) (i : (S.type k).Val) :
    (assign that k i.val k).val = i.val := by
  have hmem : (S.store k).Mem i.val := by
    rw [hk]
    exact i.mem
  rw [assign_self, CInt.wrap_of_mem hmem]

theorem fitting_file_info {m : Memory} (h : Fitting m) {k : fuse_file_info.Member} (hk : k ≠ .fh) (i : Int) :
    Fitting (file_info_ptr.set m (assign (file_info_ptr.get m) k i)) := by
  have hother : assign m.file_info k i .fh = m.file_info .fh := assign_of_ne _ hk.symm i
  unfold Fitting
  change (assign m.file_info k i .fh).val < _
  rw [hother]
  exact h

theorem Converter.allows_fitting (c : Converter) {s : Step c.target.layout} (hs : s ∈ c.target.steps) :
    s.Allows I c.ptr Fitting := by
  cases c with
  | conn_info | flock => exact Step.allows_of_set (fun _ _ hm => hm) s
  | file_info =>
      cases s with
      | memset => simp [Target.steps, file_info_steps] at hs
      | timespec tv key1 key2 key3 => simp [Target.steps, file_info_steps] at hs
      | stream k =>
          obtain rfl : k = .lock_owner := Step.stream.inj (by simpa [Target.steps, file_info_steps] using hs)
          exact fun m i hm => fitting_file_info (k := .lock_owner) hm (fun h => by cases h) i
      | OPT_FIELD k =>
          intro m₀ m v i _ hm hi
          by_cases hk : k = .fh
          · subst hk
            have hlt : i.val < 2 ^ 63 := field_integer_lt hi
            have hval := assign_val (S := fuse_file_info) (k := .fh) rfl m.file_info i
            exact lt_of_eq_of_lt hval hlt
          · exact fitting_file_info hm hk i.val

theorem Invocation.allows_fitting (inv : Invocation) : inv.callback.Allows I Fitting where
  converters := fun c _ _ hs => Converter.allows_fitting c hs
  stat := fun _ s _ => Step.allows_of_set (fun _ _ hm => hm) s
  statvfs := fun _ s _ => Step.allows_of_set (fun _ _ hm => hm) s
  buffer := fun _ _ _ _ _ _ _ hm => hm
  report := fun _ _ hm => hm

/-! ## Runs of callbacks -/

/-- One call of libfuse, on a state with the operations value on its stack. -/
structure Call (X : Type) where
  inv : Invocation
  ops : Value
  stk : List Value
  heap : Heap (Host X)
  mem : Memory

variable (I)

def Call.out (a : Call X) : Except Value (Returned × List Value) × World (Host X) Memory :=
  invoke I a.inv a.ops a.stk ⟨a.heap, a.mem, []⟩

/-- libfuse has a handle from an earlier callback, or none and passes 0; what the callback makes of it is the handle
of a file from then on. -/
def handle_step (handles : List CInt.uint64_t.Val) (a : Call X) : Option (List CInt.uint64_t.Val) :=
  if a.mem.fh = CInt.uint64_t.wrap 0 ∨ a.mem.fh ∈ handles then
    some (handles ++ [(a.out I).2.mem.fh])
  else none

variable {I}

theorem handle_fits {handles : List CInt.uint64_t.Val} (h : ∀ fh ∈ handles, fh.val < 2 ^ 63) {a : Call X}
    {handles' : List CInt.uint64_t.Val} (hs : handle_step I handles a = some handles') : Fitting a.mem := by
  obtain ⟨hzero | hmem, -⟩ := Option.ite_none_right_eq_some.mp hs
  · unfold Fitting
    rw [hzero]
    decide
  · exact h _ hmem

theorem handles_fit_step (handles : List CInt.uint64_t.Val) (a : Call X) (handles' : List CInt.uint64_t.Val)
    (h : ∀ fh ∈ handles, fh.val < 2 ^ 63) (hs : handle_step I handles a = some handles') :
    ∀ fh ∈ handles', fh.val < 2 ^ 63 := by
  have hfits := handle_fits h hs
  obtain ⟨-, hs⟩ := Option.ite_none_right_eq_some.mp hs
  cases hs
  intro fh hfh
  rcases List.mem_append.mp hfh with hfh | hfh
  · exact h fh hfh
  · rw [List.mem_singleton.mp hfh]
    exact (callback_safe a.inv.callback_counted a.inv.allows_fitting a.ops a.stk ⟨a.heap, a.mem, []⟩ hfits).1

/-- Without a handler, and with a handle below 2⁶³, a callback returns. -/
theorem invoke_missing {inv : Invocation} {ops : Value} {w : World (Host X) Memory} (hfits : Fitting w.mem)
    (h : inv.callback.handler I ops (tabled w.mem inv.callback.converters w.heap) = .ok .nil) (stk : List Value) :
    (invoke I inv ops stk w).1 = .ok (inv.callback.finish.missing, ops :: stk) := by
  rw [invoke]
  cases callback_course I inv.callback_counted inv.converters_nodup ops stk w with
  | raised h' =>
      rw [h] at h'
      cases h'
  | called h' hf =>
      rw [h] at h'
      cases h'
      exact absurd rfl hf
  | @missing tables w₁ _ hfst hencodes hmem hout _ _ =>
      have hnarrow : ∀ c ∈ tables.map Prod.fst, c.Narrow w.mem := by
        intro c _
        rw [Converter.narrow_iff]
        exact fun _ => hfits
      obtain ⟨u, hu⟩ := (destruct_all_untouched I tables (stk.length + 1) (hfst ▸ inv.converters_nodup) hencodes
        fun c _ => by rw [hmem]).1.mpr hnarrow
      rw [hout, hu]
      rfl

/-- In every run, every call gets a handle below 2⁶³. So no call fails for want of a handler: it returns what it returns
without one; and where a handler is looked up at all, it is called. -/
theorem handles_fit {handles : List CInt.uint64_t.Val} (h : Reachable (handle_step I) [] handles) {a : Call X}
    {handles' : List CInt.uint64_t.Val} (hs : handle_step I handles a = some handles') :
    a.mem.fh.val < 2 ^ 63 ∧
      (a.inv.callback.handler I a.ops (tabled a.mem a.inv.callback.converters a.heap) = .ok .nil →
        (a.out I).1 = .ok (a.inv.callback.finish.missing, a.ops :: a.stk)) ∧
      (a.inv.operation ∈ considered → a.inv.operation ≠ .flock →
        (∃ f, a.inv.field I a.inv.operation.name a.ops ⟨a.heap, a.mem, []⟩ = .ok f) →
        Dispatches I a.inv a.ops ⟨a.heap, a.mem, []⟩ (a.out I).1 (a.out I).2) := by
  have hfits : Fitting a.mem := handle_fits (h.invariant (by simp) handles_fit_step) hs
  refine ⟨hfits, fun hnil => ?_, fun hconsidered hflock ⟨f, hf⟩ => ?_⟩
  · rw [Call.out]
    exact invoke_missing (w := ⟨a.heap, a.mem, []⟩) hfits hnil a.stk
  · rw [Call.out, invoke_dispatches_iff I hconsidered]
    exact ⟨f, hf, fun heq => absurd heq hflock, fun _ _ => hfits⟩

/-- `open` with no handle, for a handler that leaves the largest one. -/
def opens : Call Unit :=
  ⟨.open (some (bytes "/")), .table 0, [], (loaded [("open", .function 1)] .zeroed).heap, .zeroed⟩

def largest : List (Bytes × Value) := [(bytes "fh", .integer (CInt.int64_t.wrap (2 ^ 63 - 1)))]

/-- `release` with the largest handle, and without a handler. -/
def releases : Call Unit :=
  ⟨.release (some (bytes "/")), .table 0, [], (loaded [] .zeroed).heap,
    { Memory.zeroed with file_info := assign zero .fh (2 ^ 63 - 1) }⟩

theorem handles_fit_largest : Reachable (handle_step (assigning largest)) [] [CInt.uint64_t.wrap (2 ^ 63 - 1)] ∧
    (releases.out (assigning largest)).1 = .ok (.int ENOSYS, [.table 0]) := by
  have hopens : handle_step (assigning largest) [] opens = some [CInt.uint64_t.wrap (2 ^ 63 - 1)] := by
    decide +kernel
  have hreachable := Reachable.refl.tail hopens
  have hreleases : (handle_step (assigning largest) [CInt.uint64_t.wrap (2 ^ 63 - 1)] releases).isSome := by
    decide +kernel
  obtain ⟨handles', hs⟩ := Option.isSome_iff_exists.mp hreleases
  exact ⟨hreachable, (handles_fit hreachable hs).2.1 rfl⟩

end DromozoaFuse.Operations
