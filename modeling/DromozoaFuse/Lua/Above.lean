import DromozoaFuse.Lua.Api

/-!
# Programs that leave values on the stack

`Above x s stk y`: started on `s`, `x` does what the stackless `y` does, and leaves values above `stk`
that nobody looks at. Restoring the top removes them.
-/

namespace DromozoaFuse.Lua

open Base

variable {H M α β γ : Type}

def Above (x : LuaM H M α) (s stk : List Value) (y : HostM H M α) : Prop :=
  ∃ g : HostM H M (α × List Value), x.run s = (fun p => (p.1, p.2 ++ stk)) <$> g ∧ Prod.fst <$> g = y

theorem Above.of_run {x : LuaM H M α} {s stk : List Value} {y : HostM H M α} (hs : stk <:+ s)
    (h : x.run s = (fun a => (a, s)) <$> y) : Above x s stk y := by
  obtain ⟨xs, rfl⟩ := hs
  exact ⟨(fun a => (a, xs)) <$> y, by simp [h], by simp⟩

theorem Above.pure (a : α) {s stk : List Value} (hs : stk <:+ s) :
    Above (Pure.pure a : LuaM H M α) s stk (Pure.pure a) := .of_run hs (by simp)

theorem Above.lower {x : LuaM H M α} {s stk stk' : List Value} {y : HostM H M α} (hs : stk <:+ stk')
    (h : Above x s stk' y) : Above x s stk y := by
  obtain ⟨xs, rfl⟩ := hs
  obtain ⟨g, hrun, rfl⟩ := h
  exact ⟨(fun p => (p.1, p.2 ++ xs)) <$> g, by simp [hrun], by simp⟩

theorem Above.step {x : LuaM H M α} {f : α → LuaM H M γ} {s stk : List Value} {g : HostM H M β} {a : β → α}
    {s' : β → List Value} {z : β → HostM H M γ} (h : x.run s = (fun b => (a b, s' b)) <$> g)
    (hf : ∀ b, Above (f (a b)) (s' b) stk (z b)) : Above (x >>= f) s stk (g >>= z) := by
  choose g' hrun hfst using hf
  refine ⟨g >>= g', ?_, ?_⟩
  · simp [h, hrun]
  · simp [hfst]

theorem Above.bind {x : LuaM H M α} {f : α → LuaM H M β} {s stk : List Value} {y : HostM H M α}
    {z : α → HostM H M β} (h : Above x s stk y) (hf : ∀ a xs, Above (f a) (xs ++ stk) stk (z a)) :
    Above (x >>= f) s stk (y >>= z) := by
  obtain ⟨g, hrun, rfl⟩ := h
  simpa using Above.step (z := fun p => z p.1) hrun fun p => hf p.1 p.2

theorem Above.host_bind {y : HostM H M α} {f : α → LuaM H M β} {s stk : List Value} {z : α → HostM H M β}
    (hf : ∀ a, Above (f a) s stk (z a)) : Above (onHost y >>= f) s stk (y >>= z) :=
  Above.step (onHost_run y s) hf

theorem Above.pure_bind {x : LuaM H M α} {f : α → LuaM H M β} {s s' stk : List Value} {a : α}
    {y : HostM H M β} (h : x.run s = Pure.pure (a, s')) (hf : Above (f a) s' stk y) :
    Above (x >>= f) s stk y := by
  obtain ⟨g, hrun, rfl⟩ := hf
  exact ⟨g, by simp [h, hrun], rfl⟩

/-- What a program with a saved top does to the stack: nothing. -/
theorem Above.settop_run {x : LuaM H M α} {stk : List Value} {y : HostM H M α} (h : Above x stk stk y) :
    (do
      let a ← x
      lua_settop stk.length
      return a : LuaM H M α).run stk = (fun a => (a, stk)) <$> y := by
  obtain ⟨g, hrun, rfl⟩ := h
  simp [hrun, lua_settop_run]

end DromozoaFuse.Lua
