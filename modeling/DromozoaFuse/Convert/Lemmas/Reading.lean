import DromozoaFuse.Convert.Lemmas.Times
import DromozoaFuse.Lua.Steady

/-!
# What a conversion keeps

A conversion keeps what the look-ups in its table and in the tables of times keep, and records what they
record.
-/

namespace DromozoaFuse.Convert

open Base Lua DromozoaFuse.Bind

variable {H M : Type} (I : Interp H) {S : Layout} {Q : Heap H → Prop} {E : Event → Prop}

theorem field_error_steady {α : Type} (key : Bytes) (what : String) :
    Steady Q E (fun _ => True) (field_error I key what : HostM H M α) :=
  .error fun w => ⟨_, field_error_exec I key what w⟩

/-- Where `Q` holds, looking up any of the keys in `o` keeps it, records nothing but `E`, and gives nothing but
`post`. -/
def Readable (M : Type) (Q : Heap H → Prop) (E : Event → Prop) (post : Bytes → Value → Prop) (o : Value)
    (keys : List Bytes) : Prop :=
  ∀ key ∈ keys, Steady Q E (post key) (I.gettable o (.string key) : HostM H M Value)

variable {I} in
theorem Readable.of_answers {o : Value} {f : Bytes → Value} (ha : Answers I Q o f) {keys : List Bytes}
    (hE : ∀ key ∈ keys, E (.read o (.string key) (.ok (f key)))) :
    Readable I M Q E (fun key v => v = f key) o keys :=
  fun key hkey => Steady.gettable ha (hE key hkey)

theorem opt_integer_field_steady {post : Value → Prop} {o : Value} (T : CInt) {key : Bytes} (d : T.Val)
    (min max : Int) (hget : Steady Q E post (I.gettable o (.string key) : HostM H M Value)) :
    Steady Q E (fun _ => True) (opt_integer_field I T o key d min max : HostM H M T.Val) := by
  refine hget.bind fun v _ => ?_
  cases field_integer I T d min max v with
  | ok i => exact .pure trivial
  | error what => exact field_error_steady I key what

def ReadableTime (M : Type) (Q : Heap H → Prop) (E : Event → Prop) (r : Nat) : Prop :=
  ∃ post, Readable I M Q E post (.table r) [bytes "tv_sec", bytes "tv_nsec"]

theorem timespec_key_steady {post : Value → Prop} {o : Value} {key : Bytes}
    (hget : Steady Q E post (I.gettable o (.string key) : HostM H M Value))
    (ht : ∀ r, post (.table r) → ReadableTime I M Q E r) :
    Steady Q E (fun _ => True) (timespec_key I o key : HostM H M _) := by
  refine hget.bind fun v hv => ?_
  cases v with
  | table r =>
      obtain ⟨post', hread⟩ := ht r hv
      exact (opt_integer_field_steady I _ _ _ _ (hread _ (by simp))).bind fun _ _ =>
        (opt_integer_field_steady I _ _ _ _ (hread _ (by simp))).bind fun _ _ => .pure trivial
  | _ => exact .pure trivial

theorem first_timespec_steady {post : Bytes → Value → Prop} {o : Value} {keys : List Bytes}
    (hread : Readable I M Q E post o keys) (ht : ∀ key ∈ keys, ∀ r, post key (.table r) → ReadableTime I M Q E r) :
    Steady Q E (fun _ => True) (first_timespec I o keys : HostM H M _) := by
  induction keys with
  | nil => exact .pure trivial
  | cons key keys ih =>
      refine (timespec_key_steady I (hread key (by simp)) (ht key (by simp))).bind fun t _ => ?_
      cases t with
      | some tv => exact .pure trivial
      | none =>
          exact ih (fun k hk => hread k (List.mem_cons_of_mem _ hk)) fun k hk => ht k (List.mem_cons_of_mem _ hk)

variable (p : Ptr M (Struct S))

theorem write_steady (f : Struct S → Struct S) : Steady Q E (fun _ => True) (write p f : HostM H M Unit) :=
  .silent (fun _ => rfl) fun _ => rfl

theorem Step.exec_steady {post : Bytes → Value → Prop} {o : Value} {step : Step S}
    (hread : Readable I M Q E post o step.keys)
    (ht : ∀ key ∈ step.keys, ∀ r, post key (.table r) → ReadableTime I M Q E r) :
    Steady Q E (fun _ => True) (step.exec I p o) := by
  cases step with
  | memset => exact write_steady p _
  | OPT_FIELD k =>
      have hstruct : Steady Q E (fun _ => True) (read p : HostM H M (Struct S)) :=
        .silent (fun _ => rfl) fun _ => rfl
      exact hstruct.bind fun _ _ =>
        (opt_integer_field_steady I _ _ _ _ (hread _ (by simp [keys]))).bind fun _ _ => write_steady p _
  | stream k =>
      refine (hread (key k) (by simp [keys])).bind fun v _ => ?_
      cases I.tolstring v with
      | none => exact .pure trivial
      | some s => exact write_steady p _
  | timespec tv key1 key2 key3 =>
      have htime : Steady Q E (fun _ => True)
          (timespec_keys I o (bytes key1) (bytes key2) (bytes key3) : HostM H M _) := by
        rw [timespec_keys_eq]
        exact first_timespec_steady I hread ht
      exact htime.bind fun _ _ => write_steady p _

theorem decode_steady {post : Bytes → Value → Prop} {r : Nat} (steps : List (Step S))
    (hread : Readable I M Q E post (.table r) (steps.flatMap Step.keys))
    (ht : ∀ key ∈ steps.flatMap Step.keys, ∀ r', post key (.table r') → ReadableTime I M Q E r') :
    Steady Q E (fun _ => True) (decode I p steps (.table r)) := by
  have hdecode : decode I p steps (.table r) =
      (do steps.forM (Step.exec I p (.table r)); return true) := rfl
  rw [hdecode]
  refine (Steady.forM steps fun s hs => ?_).bind fun _ _ => .pure trivial
  exact Step.exec_steady I p (fun key hk => hread key (List.mem_flatMap.mpr ⟨s, hs, hk⟩))
    fun key hk => ht key (List.mem_flatMap.mpr ⟨s, hs, hk⟩)

theorem decode_keeps (hI : LookupsKeep I Q) (steps : List (Step S)) (v : Value) : Keeps Q (decode I p steps v) := by
  have hread : ∀ o keys, Readable I M Q (fun _ => True) (fun _ _ => True) o keys := fun o _ key _ =>
    Keeps.gettable hI o _
  cases v with
  | table r => exact decode_steady I p steps (hread (.table r) _) fun _ _ r' _ => ⟨_, hread (.table r') _⟩
  | _ => exact .pure trivial

end DromozoaFuse.Convert
