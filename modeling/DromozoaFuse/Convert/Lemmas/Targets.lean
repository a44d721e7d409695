import DromozoaFuse.Convert.Lemmas.Audit

/-!
# The conversions of the six structs

Where a conversion starts with a `memset`, the fields are read over a cleared struct.
-/

namespace DromozoaFuse.Convert

open Base Lua DromozoaFuse.Bind

variable {H M : Type} (I : Interp H)

/-- The statements of a conversion but the `memset`. -/
def Target.fields (t : Target) : List (Step t.layout) := t.steps.filter fun s => !s.isMemset

theorem Target.mem_fields {t : Target} {s : Step t.layout} (hs : s ∈ t.steps) (hm : s.isMemset = false) :
    s ∈ t.fields :=
  List.mem_filter.mpr ⟨hs, by simp [hm]⟩

/-- The struct that the fields are read over: cleared first or not. -/
def Target.base : (t : Target) → Struct t.layout → Struct t.layout
  | .stat, _ => zero
  | .statvfs, _ => zero
  | .conn_info, that => that
  | .operations, that => that
  | .file_info, that => that
  | .flock, that => that

theorem Target.keys_nodup (t : Target) : (t.fields.flatMap Step.keys).Nodup := by
  cases t <;> decide +kernel

theorem Target.members_nodup (t : Target) : (t.fields.flatMap Step.members).Nodup := by
  cases t <;> decide +kernel

theorem Target.tv_sec_not_mem (t : Target) : bytes "tv_sec" ∉ t.fields.flatMap Step.keys := by
  cases t <;> decide +kernel

theorem Target.tv_nsec_not_mem (t : Target) : bytes "tv_nsec" ∉ t.fields.flatMap Step.keys := by
  cases t <;> decide +kernel

theorem Target.memset_not_mem (t : Target) : .memset ∉ t.fields := by
  simp [fields, Step.isMemset]

theorem Target.steps_exec (t : Target) (p : Ptr M (Struct t.layout)) (o : Value) (w : World H M) :
    ((t.steps.forM (Step.exec I p o)) : HostM H M Unit).exec w =
      (t.fields.forM (Step.exec I p o) : HostM H M Unit).exec
        { w with mem := p.set w.mem (t.base (p.get w.mem)) } := by
  cases t <;> first
    | rfl
    | (simp only [Target.base, p.set_get]; rfl)

/-! ## The members that a conversion reads -/

def Target.integers (t : Target) : List t.layout.Member :=
  t.steps.filterMap fun
    | .OPT_FIELD k => some k
    | _ => none

def Target.streams (t : Target) : List t.layout.Member :=
  t.steps.filterMap fun
    | .stream k => some k
    | _ => none

theorem Target.mem_integers {t : Target} {k : t.layout.Member} :
    k ∈ t.integers ↔ .OPT_FIELD k ∈ t.steps := by
  rw [integers, List.mem_filterMap]
  constructor
  · rintro ⟨s, hs, hk⟩
    cases s <;> simp_all
  · intro h
    exact ⟨_, h, rfl⟩

theorem Target.mem_streams {t : Target} {k : t.layout.Member} :
    k ∈ t.streams ↔ .stream k ∈ t.steps := by
  rw [streams, List.mem_filterMap]
  constructor
  · rintro ⟨s, hs, hk⟩
    cases s <;> simp_all
  · intro h
    exact ⟨_, h, rfl⟩

/-- The members that a conversion does not read, among those that C knows by a name. -/
def Target.unread : (t : Target) → List t.layout.Member
  | .conn_info => (List.finRange 23).map conn_info_member.reserved
  | .operations => [operations_member.flag_reserved]
  | .file_info => [file_info_member.fh_old, file_info_member.padding]
  | .flock => []
  | .stat => [stat_member.st_rdev]
  | .statvfs => []

/-- There are no others. -/
theorem Target.mem_unread {t : Target} {k : t.layout.Member} :
    k ∈ t.unread ↔ k ∉ t.fields.flatMap Step.members := by
  apply of_decide_eq_true
  cases t with
  | conn_info =>
      cases k with
      | reserved i =>
          revert i
          decide +kernel
      | _ => decide +kernel
  | stat =>
      cases k with
      | st_atim k | st_mtim k | st_ctim k => cases k <;> decide +kernel
      | _ => decide +kernel
  | operations | file_info | flock | statvfs => cases k <;> decide +kernel

/-- A member that is an integer, no `struct timespec` and no array. -/
def Target.Integral : (t : Target) → t.layout.Member → Prop
  | .conn_info, k => ∀ i, k ≠ conn_info_member.reserved i
  | .stat, k => ∀ j, k ≠ stat_member.st_atim j ∧ k ≠ stat_member.st_mtim j ∧ k ≠ stat_member.st_ctim j
  | .operations, _ | .file_info, _ | .flock, _ | .statvfs, _ => True

/-- It is read as an integer, or by a stream, or not at all. -/
theorem Target.Integral.read {t : Target} {k : t.layout.Member} (h : t.Integral k) :
    k ∈ t.integers ∨ k ∈ t.streams ∨ k ∈ t.unread := by
  apply of_decide_eq_true
  cases t with
  | conn_info =>
      cases k with
      | reserved i => exact absurd rfl (h i)
      | _ => decide +kernel
  | stat =>
      cases k with
      | st_atim j => exact absurd rfl (h j).1
      | st_mtim j => exact absurd rfl (h j).2.1
      | st_ctim j => exact absurd rfl (h j).2.2
      | _ => decide +kernel
  | operations | file_info | flock | statvfs => cases k <;> decide +kernel

/-- The members read by a stream are unsigned and no bit-fields, and nothing is cleared before. -/
theorem Target.streams_unsigned (t : Target) (k : t.layout.Member) (h : .stream k ∈ t.steps) :
    (t.layout.type k).signed = false ∧ t.layout.store k = t.layout.type k ∧ ∀ that, t.base that = that := by
  have hk := mem_streams.mpr h
  cases t with
  | file_info =>
      have hlock : k ∈ [file_info_member.lock_owner] := hk
      obtain rfl := List.mem_singleton.mp hlock
      exact ⟨rfl, rfl, fun _ => rfl⟩
  | conn_info | operations | flock | stat | statvfs => cases hk

theorem Target.acceptable_fields (t : Target) (that : Struct t.layout) :
    acceptable I t.fields that = acceptable I t.steps that := by
  funext key v
  simp [acceptable, fields, Step.isMemset]

theorem Target.decode_audited (t : Target) (p : Ptr M (Struct t.layout)) (r : Nat) (w : World H M) :
    ∃ ev that', ((decode I p t.steps (.table r)).exec w).2.trace = w.trace ++ ev ∧
      ((decode I p t.steps (.table r)).exec w).2.mem = p.set w.mem that' ∧
      (∀ k, k ∉ t.fields.flatMap Step.members → that' k = t.base (p.get w.mem) k) ∧
      (∀ e ∈ ev, e.isRead = true) ∧
      (((decode I p t.steps (.table r)).exec w).1 = .ok true ∧
          (∀ e ∈ ev, ¬ Refused (acceptable I t.fields (t.base (p.get w.mem))) e) ∧
          (∀ s ∈ t.fields, s.Done I (.table r) ev (t.base (p.get w.mem)) that') ∨
        ∃ err, ((decode I p t.steps (.table r)).exec w).1 = .error err ∧
          ∃ e ∈ ev, Refused (acceptable I t.fields (t.base (p.get w.mem))) e) := by
  have hdecode : (decode I p t.steps (.table r) : HostM H M Bool) =
      (do t.steps.forM (Step.exec I p (.table r)); return true) := rfl
  have hbase : p.get (p.set w.mem (t.base (p.get w.mem))) = t.base (p.get w.mem) := p.get_set ..
  have haudit := steps_audited I p (o := .table r) t.fields
    { w with mem := p.set w.mem (t.base (p.get w.mem)) }
    (acceptable_spec I _ t.memset_not_mem t.keys_nodup t.tv_sec_not_mem t.tv_nsec_not_mem)
    t.members_nodup t.keys_nodup t.tv_sec_not_mem t.tv_nsec_not_mem
  rw [← t.steps_exec] at haudit
  simp only [Audited, hbase] at haudit
  obtain ⟨ev, that', htr, hmem, hframe, hkeys, hok, herr⟩ := haudit
  have hreads : ∀ e ∈ ev, e.isRead = true := by
    intro e he
    obtain ⟨o, key, reply, rfl, -⟩ := hkeys e he
    rfl
  rw [hdecode, Prog.exec_bind]
  rcases hx : (t.steps.forM (Step.exec I p (.table r)) : HostM H M Unit).exec w with ⟨e | ⟨⟩, w'⟩
  · rw [hx] at htr hmem herr
    exact ⟨ev, that', htr, by simpa using hmem, hframe, hreads, Or.inr ⟨e, rfl, herr e rfl⟩⟩
  · rw [hx] at htr hmem hok
    exact ⟨ev, that', htr, by simpa using hmem, hframe, hreads, Or.inl ⟨rfl, hok rfl⟩⟩

end DromozoaFuse.Convert
