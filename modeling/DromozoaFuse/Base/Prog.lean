/-!
# Programs with errors and state

A program either returns or throws, and keeps its state in both cases. `exec` runs one, and the
equations below run it step by step.
-/

namespace DromozoaFuse.Base

abbrev Prog (ε σ α : Type) : Type := ExceptT ε (StateM σ) α

namespace Prog

variable {ε σ α β : Type}

/-- The outcome of a program and the state it leaves behind. -/
def exec (x : Prog ε σ α) (s : σ) : Except ε α × σ := x.run.run s

def lift (f : σ → Except ε α × σ) : Prog ε σ α := ExceptT.mk (StateT.mk f)

@[simp] theorem exec_lift (f : σ → Except ε α × σ) (s : σ) : exec (lift f) s = f s := rfl

@[simp] theorem exec_pure (a : α) (s : σ) : exec (pure a : Prog ε σ α) s = (.ok a, s) := rfl

theorem exec_bind (x : Prog ε σ α) (f : α → Prog ε σ β) (s : σ) :
    exec (x >>= f) s =
      match exec x s with
      | (.ok a, s') => exec (f a) s'
      | (.error e, s') => (.error e, s') := by
  change exec (ExceptT.bind x f) s = _
  unfold exec ExceptT.bind ExceptT.mk
  simp only [ExceptT.run, StateT.run_bind]
  rcases StateT.run x s with ⟨e | a, s'⟩ <;> rfl

@[simp] theorem exec_map (f : α → β) (x : Prog ε σ α) (s : σ) :
    exec (f <$> x) s = ((exec x s).1.map f, (exec x s).2) := by
  rw [map_eq_pure_bind, exec_bind]
  rcases exec x s with ⟨e | a, s'⟩ <;> rfl

@[simp] theorem exec_get (s : σ) : exec (get : Prog ε σ σ) s = (.ok s, s) := rfl

theorem exec_bind_ok {x : Prog ε σ α} {f : α → Prog ε σ β} {s s' : σ} {b : β}
    (h : exec (x >>= f) s = (.ok b, s')) :
    ∃ a s₁, exec x s = (.ok a, s₁) ∧ exec (f a) s₁ = (.ok b, s') := by
  rw [exec_bind] at h
  split at h
  · rename_i a s₁ hx
    exact ⟨a, s₁, hx, h⟩
  · cases h

theorem exec_bind_of_ok {x : Prog ε σ α} {f : α → Prog ε σ β} {s s₁ : σ} {a : α}
    (h : exec x s = (.ok a, s₁)) : exec (x >>= f) s = exec (f a) s₁ := by
  rw [exec_bind, h]

theorem exec_bind_of_error {x : Prog ε σ α} {f : α → Prog ε σ β} {s s₁ : σ} {e : ε}
    (h : exec x s = (.error e, s₁)) : exec (x >>= f) s = (.error e, s₁) := by
  rw [exec_bind, h]

end Prog

end DromozoaFuse.Base
