import DromozoaFuse.Convert.Lemmas.Safe
import DromozoaFuse.Operations.Theorems

/-!
# What callbacks write

Handlers decide what is written to the memory of libfuse, and errors where a callback stops. Whatever they do, a
callback writes to nothing but what it is meant to fill.
-/

namespace DromozoaFuse.Operations

open Base Lua DromozoaFuse.Bind DromozoaFuse.Convert Fill

variable {X : Type} (I : Interp (Host X)) {P : Memory → Prop}

/-! ## Properties that a callback keeps -/

/-- Everything that a callback may write where `P` holds keeps `P`. -/
structure Callback.Allows (P : Memory → Prop) (c : Callback) : Prop where
  converters : ∀ d ∈ c.converters, ∀ s ∈ d.target.steps, s.Allows I d.ptr P
  stat : c.finish = .reply .stat → ∀ s ∈ stat_steps, s.Allows I stat_ptr P
  statvfs : c.finish = .reply .statvfs → ∀ s ∈ statvfs_steps, s.Allows I statvfs_ptr P
  buffer : ∀ o m₀ m s, c.finish = .reply o → o.size?.isSome → P m₀ → P m →
    P { m with buffer := (o.fill s m₀.buffer).2 }
  report : ∀ m what, P m → P { m with unexpected := m.unexpected ++ [what] }

variable {I}

theorem Callback.Allows.unexpected {c : Callback} (h : c.Allows I P) (what : Option Bytes) :
    Safe P (fun _ => True) (UNEXPECTED what : StatelessM X Unit) :=
  .modifyMem fun m hm => h.report m _ hm

theorem Callback.Allows.finish {c : Callback} (h : c.Allows I P) {o : Other} (ho : c.finish = .reply o) (v : Value) :
    Safe P (fun _ => True) (o.finish I v) := by
  have hfill : o.size?.isSome → ∀ s : Bytes, Safe P (fun _ => True) (do
      let w ← get
      modifyMem fun m => { m with buffer := (o.fill s w.mem.buffer).2 }
      return some (o.fill s w.mem.buffer).1 : StatelessM X (Option CInt.int.Val)) := by
    intro hsize s
    apply Safe.get.bind
    intro w hw
    apply (Safe.modifyMem fun m hm => h.buffer o w.mem m s ho hsize hw hm).bind
    exact fun _ _ => .pure trivial
  cases o with
  | nil d => exact .pure trivial
  | stat =>
      apply (decode_safe I stat_ptr (h.stat ho) v).bind
      exact fun _ _ => .pure trivial
  | statvfs =>
      apply (decode_safe I statvfs_ptr (h.statvfs ho) v).bind
      exact fun _ _ => .pure trivial
  | readlink size | read size | xattr size =>
      unfold Other.finish
      cases I.tolstring v with
      | none => exact .pure trivial
      | some s => exact hfill rfl s

theorem Callback.Allows.status {c : Callback} (h : c.Allows I P) {o : Other} (ho : c.finish = .reply o)
    (result : Except Value Value) : Safe P (fun _ => True) (o.answer I result) := by
  have hreported : ∀ what, Safe P (fun _ => True) (do UNEXPECTED what; return ENOSYS : StatelessM X CInt.int.Val) :=
    fun what => (h.unexpected what).bind fun _ _ => .pure trivial
  cases result with
  | ok v =>
      simp only [Other.answer]
      cases Operations.status v with
      | some i => exact .pure trivial
      | none =>
          apply (h.finish ho v).bind
          rintro (_ | i) _
          · exact hreported _
          · exact .pure trivial
  | error e =>
      simp only [Other.answer]
      cases Operations.status e with
      | some i => exact .pure trivial
      | none => exact hreported _

theorem Callback.Allows.answer {c : Callback} (h : c.Allows I P) (result : Except Value Value) :
    Safe P (fun _ => True) (c.finish.answer I result) := by
  have hnotified : ∀ returned : Returned, Safe P (fun _ => True) (notified I returned result) := by
    intro returned
    cases result with
    | ok v => exact .pure trivial
    | error e => exact (h.unexpected _).bind fun _ _ => .pure trivial
  cases hfinish : c.finish with
  | init => exact hnotified .self
  | destroy => exact hnotified .void
  | reply o =>
      apply (h.status hfinish result).bind
      exact fun _ _ => .pure trivial

theorem Callback.Allows.inner {c : Callback} (h : c.Allows I P) (ops : Value) (tables : Tables) :
    Safe P (fun _ => True) (c.inner I ops tables) := by
  apply (Safe.gettable I ops _).bind
  intro f _
  by_cases hf : f = .nil
  · rw [if_pos hf]
    exact .pure trivial
  · rw [if_neg hf]
    have hargs : Safe P (fun _ => True) (make_args I tables c.args [ops] []) := by
      apply Safe.silent
      intro w
      obtain ⟨vs, hs, heap, hexec, -⟩ := make_args_exec I tables c.args [ops] [] w
      rw [hexec]
    apply hargs.bind
    rintro ⟨vs, hs⟩ _
    apply (Safe.pcall I f vs).bind
    intro result _
    apply (h.answer result).bind
    intro returned _
    have hreset : Safe P (fun _ => True) (hs.forM reset : StatelessM X Unit) :=
      .silent fun w => by rw [resets_exec]; rfl
    exact hreset.bind fun _ _ => .pure trivial

theorem destruct_all_safe {tables : Tables}
    (h : ∀ c ∈ tables.map Prod.fst, ∀ s ∈ c.target.steps, s.Allows I c.ptr P) (height : Nat) :
    Safe P (fun _ => True) (destruct_all I tables height) := by
  induction tables generalizing height with
  | nil => exact .pure trivial
  | cons p tables ih =>
      obtain ⟨c, r⟩ := p
      apply (ih (fun d hd => h d (List.mem_cons_of_mem _ hd)) (height + 1)).bind
      intro _ _
      apply (Safe.record _).bind
      intro _ _
      apply (decode_safe I c.ptr (h c List.mem_cons_self) _).bind
      exact fun _ _ => .pure trivial

theorem Callback.Allows.scope {c : Callback} (h : c.Allows I P) (ops : Value) (height : Nat) :
    Safe P (fun _ => True) (c.scope I height ops) := by
  have hconstruct : Safe P (fun tables => tables.map Prod.fst = c.converters)
      (construct_all I c.converters height) := by
    intro w hP
    obtain ⟨tables, hexec, hfst, -⟩ := construct_all_exec I c.converters height w
    rw [hexec]
    refine ⟨hP, fun tables' htables' => ?_⟩
    cases htables'
    exact hfst
  rw [Callback.scope, converting_all_eq]
  apply hconstruct.bind
  intro tables hfst
  apply (h.inner ops tables).bind
  intro a _
  apply (destruct_all_safe (hfst ▸ h.converters) height).bind
  exact fun _ _ => .pure trivial

theorem callback_safe {c : Callback} (hc : c.Counted) (h : c.Allows I P) (ops : Value) (stk : List Value) :
    Safe P (fun _ => True) ((callback I c).run (ops :: stk)) := by
  rw [callback_run I hc]
  have hmanaged : Safe P (fun _ => True) (do
      record (.opened (ops :: stk))
      let r ← c.scope I (stk.length + 1) ops
      record (.closed (ops :: stk))
      return r) := by
    apply (Safe.record _).bind
    intro _ _
    apply (h.scope ops _).bind
    intro r _
    apply (Safe.record _).bind
    exact fun _ _ => .pure trivial
  intro w hP
  rw [Prog.exec_map]
  exact ⟨(hmanaged w hP).1, fun _ _ => trivial⟩

/-! ## What may change -/

/-- A callback that makes `m` of `m₀` has written to no struct but those that it converts, and in them to no member but
those that the conversion reads a field for; to `struct stat` and `struct statvfs` only to return them; and to no
byte of a buffer from its size on. Texts are reported after those that were there. -/
structure Frame (inv : Invocation) (m₀ m : Memory) : Prop where
  structs : ∀ c : Converter, ∀ k, (c ∈ inv.callback.converters → k ∉ c.target.steps.flatMap Step.members) →
    c.ptr.get m k = c.ptr.get m₀ k
  stat : inv.callback.finish ≠ .reply .stat → m.stat = m₀.stat
  statvfs : inv.callback.finish ≠ .reply .statvfs → m.statvfs = m₀.statvfs
  buffer : ∀ i : Nat, (∀ size, inv.size? = some size → size.val ≤ i) → m.buffer i = m₀.buffer i
  unexpected : m₀.unexpected <+: m.unexpected

theorem Converter.frame {inv : Invocation} {m₀ m : Memory} (h : Frame inv m₀ m) {c : Converter}
    (hc : c ∈ inv.callback.converters) {s : Step c.target.layout} (hs : s ∈ c.target.steps) {k : c.target.layout.Member}
    (hk : k ∈ s.members) (i : Int) : Frame inv m₀ (c.ptr.set m (assign (c.ptr.get m) k i)) := by
  refine ⟨fun d k' hk' => ?_, fun hstat => ?_, fun hstatvfs => ?_, fun i hi => ?_, ?_⟩
  · rw [← h.structs d k' hk']
    by_cases hd : d = c
    · subst hd
      rw [d.ptr.get_set, assign_of_ne]
      rintro rfl
      exact hk' hc (List.mem_flatMap.mpr ⟨s, hs, hk⟩)
    · rw [Converter.ptr_set_of_ne hd]
  · cases c <;> exact h.stat hstat
  · cases c <;> exact h.statvfs hstatvfs
  · cases c <;> exact h.buffer i hi
  · cases c <;> exact h.unexpected

theorem Converter.allows_frame {inv : Invocation} (m₀ : Memory) {c : Converter} (hc : c ∈ inv.callback.converters)
    {s : Step c.target.layout} (hs : s ∈ c.target.steps) : s.Allows I c.ptr (Frame inv m₀) := by
  cases s with
  | memset => cases c <;> simp [Target.steps, conn_info_steps, file_info_steps, flock_steps] at hs
  | OPT_FIELD k => exact fun _ m _ i _ hm _ => Converter.frame hm hc hs List.mem_cons_self i.val
  | stream k => exact fun m i hm => Converter.frame hm hc hs List.mem_cons_self i
  | timespec tv key1 key2 key3 => cases c <;> simp [Target.steps, conn_info_steps, file_info_steps, flock_steps] at hs

theorem Frame.structs_of {inv : Invocation} {m₀ m m' : Memory} (h : Frame inv m₀ m) (hconn : m'.conn_info = m.conn_info)
    (hfile : m'.file_info = m.file_info) (hflock : m'.flock = m.flock) (c : Converter) (k : c.target.layout.Member)
    (hk : c ∈ inv.callback.converters → k ∉ c.target.steps.flatMap Step.members) : c.ptr.get m' k = c.ptr.get m₀ k := by
  have hsame : c.ptr.get m' = c.ptr.get m := by cases c <;> assumption
  rw [hsame]
  exact h.structs c k hk

theorem Frame.stat_set {inv : Invocation} {m₀ m : Memory} (h : Frame inv m₀ m)
    (hfinish : inv.callback.finish = .reply .stat) (that : Struct Convert.stat) :
    Frame inv m₀ (stat_ptr.set m that) where
  structs := h.structs_of rfl rfl rfl
  stat := fun hne => absurd hfinish hne
  statvfs := h.statvfs
  buffer := h.buffer
  unexpected := h.unexpected

theorem Frame.statvfs_set {inv : Invocation} {m₀ m : Memory} (h : Frame inv m₀ m)
    (hfinish : inv.callback.finish = .reply .statvfs) (that : Struct Convert.statvfs) :
    Frame inv m₀ (statvfs_ptr.set m that) where
  structs := h.structs_of rfl rfl rfl
  stat := h.stat
  statvfs := fun hne => absurd hfinish hne
  buffer := h.buffer
  unexpected := h.unexpected

theorem Step.allows_of_set {M : Type} {S : Layout} {P : M → Prop} {p : Ptr M (Struct S)}
    (h : ∀ m that, P m → P (p.set m that)) (s : Step S) : s.Allows I p P := by
  cases s with
  | memset => exact fun m hm => h m _ hm
  | OPT_FIELD k => exact fun _ m _ _ _ hm _ => h m _ hm
  | stream k => exact fun m _ hm => h m _ hm
  | timespec tv key1 key2 key3 => exact fun m _ _ hm => h m _ hm

theorem Invocation.size_eq {inv : Invocation} {o : Other} (ho : inv.callback.finish = .reply o) :
    inv.size? = o.size? := by
  cases inv <;> cases ho <;> rfl

theorem Invocation.allows_frame (inv : Invocation) (hroomy : inv.Roomy) (m₀ : Memory) :
    inv.callback.Allows I (Frame inv m₀) where
  converters := fun _ hc _ hs => Converter.allows_frame m₀ hc hs
  stat := fun hfinish s _ => Step.allows_of_set (fun _ that hm => hm.stat_set hfinish that) s
  statvfs := fun hfinish s _ => Step.allows_of_set (fun _ that hm => hm.statvfs_set hfinish that) s
  buffer := by
    intro o m₁ m s hfinish hsize hm₁ hm
    obtain ⟨size, hsize⟩ := Option.isSome_iff_exists.mp hsize
    refine ⟨hm.structs_of rfl rfl rfl, hm.stat, hm.statvfs, fun i hi => ?_, hm.unexpected⟩
    have hreadlink : ∀ n, o = .readlink n → 1 ≤ n.val := by
      rintro n rfl
      cases inv <;> cases hfinish
      exact hroomy
    have hle : size.val ≤ i := hi size ((Invocation.size_eq hfinish).trans hsize)
    exact (Other.fill_outside hsize hreadlink s m₁.buffer hle).trans (hm₁.buffer i hi)
  report := fun _ what hm =>
    ⟨hm.structs_of rfl rfl rfl, hm.stat, hm.statvfs, hm.buffer, hm.unexpected.trans (List.prefix_append _ [what])⟩

/-- Whatever the handlers do, and whether a callback returns or raises an error, it changes nothing in the memory of
libfuse but what it is meant to fill. -/
theorem invoke_frame (I : Interp (Host X)) {inv : Invocation} (hroomy : inv.Roomy) (ops : Value) (stk : List Value)
    (w : World (Host X) Memory) : Frame inv w.mem (invoke I inv ops stk w).2.mem := by
  have hrefl : Frame inv w.mem w.mem :=
    ⟨fun _ _ _ => rfl, fun _ => rfl, fun _ => rfl, fun _ _ => rfl, List.prefix_refl _⟩
  exact (callback_safe inv.callback_counted (inv.allows_frame hroomy w.mem) ops stk w hrefl).1

/-- `readlink` into two bytes. -/
theorem invoke_frame_readlink : (invoke (.constant (.ok (.string (bytes "long"))))
    (.readlink (some (bytes "/")) (CInt.size_t.wrap 2)) (.table 0) [] (loaded [("readlink", .function 1)]
      .zeroed)).2.mem.buffer 2 = 0 := by
  have hroomy : (Invocation.readlink (some (bytes "/")) (CInt.size_t.wrap 2)).Roomy := by
    change 1 ≤ (CInt.size_t.wrap 2).val
    decide
  have hframe := invoke_frame (.constant (.ok (.string (bytes "long")))) hroomy (.table 0) []
    (loaded [("readlink", .function 1)] .zeroed)
  refine hframe.buffer 2 fun size hsize => ?_
  cases hsize
  decide

end DromozoaFuse.Operations
