import DromozoaFuse.Convert.Lemmas.Targets
import DromozoaFuse.Lua.Safe

/-!
# Conversions that keep a property of the memory
-/

namespace DromozoaFuse.Convert

open Base Lua DromozoaFuse.Bind

variable {H M : Type} (I : Interp H) {S : Layout} {P : M → Prop} (p : Ptr M (Struct S))

theorem read_safe : Safe P (fun that => ∃ m, P m ∧ that = p.get m) (read p : HostM H M (Struct S)) :=
  Safe.get.bind fun w hP => .pure ⟨w.mem, hP, rfl⟩

theorem opt_integer_field_safe (T : CInt) (o : Value) (key : Bytes) (d : T.Val) (min max : Int) :
    Safe P (fun i => ∃ v, field_integer I T d min max v = .ok i)
      (opt_integer_field I T o key d min max : HostM H M T.Val) := by
  apply (Safe.gettable I o _).bind
  intro v _
  cases hv : field_integer I T d min max v with
  | ok i => exact .pure ⟨v, hv⟩
  | error what => exact .error fun w => ⟨_, field_error_exec I key what w⟩

theorem timespec_key_safe (o : Value) (key : Bytes) :
    Safe P (fun _ => True) (timespec_key I o key : HostM H M (Option (Struct timespec))) := by
  apply (Safe.gettable I o _).bind
  intro v _
  cases v with
  | table r =>
      apply (opt_integer_field_safe I _ _ _ _ _ _).bind
      intro tv_sec _
      apply (opt_integer_field_safe I _ _ _ _ _ _).bind
      exact fun _ _ => .pure trivial
  | _ => exact .pure trivial

theorem timespec_keys_safe (o : Value) (key1 key2 key3 : Bytes) :
    Safe P (fun _ => True) (timespec_keys I o key1 key2 key3 : HostM H M (Struct timespec)) := by
  apply (timespec_key_safe I o key1).bind
  rintro (_ | t) _
  · apply (timespec_key_safe I o key2).bind
    rintro (_ | t) _
    · apply (timespec_key_safe I o key3).bind
      rintro (_ | t) _ <;> exact .pure trivial
    · exact .pure trivial
  · exact .pure trivial

/-- Whatever a statement writes where `P` holds keeps `P`. The default of a field is what is there. -/
def Step.Allows (P : M → Prop) : Step S → Prop
  | .memset => ∀ m, P m → P (p.set m zero)
  | .OPT_FIELD k => ∀ m₀ m v i, P m₀ → P m →
      field_integer I (S.type k) (member (p.get m₀) k) (S.type k).min (S.type k).max v = .ok i →
      P (p.set m (assign (p.get m) k i.val))
  | .stream k => ∀ m i, P m → P (p.set m (assign (p.get m) k i))
  | .timespec tv _ _ _ => ∀ m sec nsec, P m →
      P (p.set m (assign (assign (p.get m) (tv .tv_sec) sec) (tv .tv_nsec) nsec))

theorem Step.exec_safe {s : Step S} (h : s.Allows I p P) (o : Value) :
    Safe P (fun _ => True) (s.exec I p o : HostM H M Unit) := by
  cases s with
  | memset => exact .modifyMem h
  | OPT_FIELD k =>
      apply (read_safe p).bind
      rintro _ ⟨m₀, hm₀, rfl⟩
      apply (opt_integer_field_safe I _ _ _ _ _ _).bind
      rintro i ⟨v, hv⟩
      exact .modifyMem fun m hm => h m₀ m v i hm₀ hm hv
  | stream k =>
      apply (Safe.gettable I o _).bind
      intro v _
      cases I.tolstring v with
      | none => exact .pure trivial
      | some s => exact .modifyMem fun m hm => h m _ hm
  | timespec tv key1 key2 key3 =>
      apply (timespec_keys_safe I o _ _ _).bind
      exact fun t _ => .modifyMem fun m hm => h m _ _ hm

theorem decode_safe {steps : List (Step S)} (h : ∀ s ∈ steps, s.Allows I p P) (o : Value) :
    Safe P (fun _ => True) (decode I p steps o : HostM H M Bool) := by
  unfold decode
  split
  · apply (Safe.forM steps fun s hs => Step.exec_safe I p (h s hs) o).bind
    exact fun _ _ => .pure trivial
  · exact .pure trivial

end DromozoaFuse.Convert
