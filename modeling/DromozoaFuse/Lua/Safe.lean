import DromozoaFuse.Lua.World

/-!
# Programs that keep a property of the memory

A property of the memory that no step of a program breaks, whether the program returns or raises an error, with what
it returns where the property holds.
-/

namespace DromozoaFuse.Lua

open Base

variable {H M α β : Type} {P : M → Prop}

/-- Where `P` holds of the memory, `x` keeps it, however it ends, and returns nothing but `post`. -/
def Safe (P : M → Prop) (post : α → Prop) (x : HostM H M α) : Prop :=
  ∀ w, P w.mem → P (x.exec w).2.mem ∧ ∀ a, (x.exec w).1 = .ok a → post a

/-- A program that does not touch the memory. -/
theorem Safe.silent {x : HostM H M α} (h : ∀ w, (x.exec w).2.mem = w.mem) : Safe P (fun _ => True) x := by
  intro w hP
  rw [h w]
  exact ⟨hP, fun _ _ => trivial⟩

theorem Safe.pure {post : α → Prop} {a : α} (h : post a) : Safe P post (Pure.pure a : HostM H M α) := by
  intro w hP
  refine ⟨hP, fun b hb => ?_⟩
  cases hb
  exact h

theorem Safe.error {post : α → Prop} {x : HostM H M α} (h : ∀ w, ∃ e, x.exec w = (.error e, w)) : Safe P post x := by
  intro w hP
  obtain ⟨e, he⟩ := h w
  rw [he]
  exact ⟨hP, fun b hb => by cases hb⟩

theorem Safe.bind {post : α → Prop} {post' : β → Prop} {x : HostM H M α} {f : α → HostM H M β}
    (hx : Safe P post x) (hf : ∀ a, post a → Safe P post' (f a)) : Safe P post' (x >>= f) := by
  intro w hP
  obtain ⟨hmem, hpost⟩ := hx w hP
  rcases hxw : x.exec w with ⟨e | a, w₁⟩
  · rw [hxw] at hmem
    rw [Prog.exec_bind_of_error hxw]
    exact ⟨hmem, fun b hb => by cases hb⟩
  · rw [hxw] at hmem hpost
    rw [Prog.exec_bind_of_ok hxw]
    exact hf a (hpost a rfl) w₁ hmem

theorem Safe.modifyMem {f : M → M} (h : ∀ m, P m → P (f m)) :
    Safe P (fun _ => True) (Lua.modifyMem f : HostM H M Unit) :=
  fun w hP => ⟨h w.mem hP, fun _ _ => trivial⟩

theorem Safe.get : Safe P (fun w => P w.mem) (MonadState.get : HostM H M (World H M)) := by
  intro w hP
  refine ⟨hP, fun w' hw' => ?_⟩
  cases hw'
  exact hP

theorem Safe.gettable (I : Interp H) (o key : Value) : Safe P (fun _ => True) (I.gettable o key : HostM H M Value) :=
  .silent fun _ => rfl

theorem Safe.pcall (I : Interp H) (f : Value) (args : List Value) :
    Safe P (fun _ => True) (I.pcall f args : HostM H M _) :=
  .silent fun _ => rfl

theorem Safe.record (e : Event) : Safe P (fun _ => True) (Lua.record e : HostM H M Unit) := .silent fun _ => rfl

theorem Safe.forM {γ : Type} {f : γ → HostM H M Unit} (xs : List γ) (h : ∀ x ∈ xs, Safe P (fun _ => True) (f x)) :
    Safe P (fun _ => True) (xs.forM f) := by
  induction xs with
  | nil => exact .pure trivial
  | cons x xs ih =>
      have hcons : ((x :: xs).forM f : HostM H M Unit) = (do f x; xs.forM f) := rfl
      rw [hcons]
      exact (h x (by simp)).bind fun _ _ => ih fun y hy => h y (List.mem_cons_of_mem _ hy)

end DromozoaFuse.Lua
