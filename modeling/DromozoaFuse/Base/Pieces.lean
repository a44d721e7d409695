import DromozoaFuse.Base.Prog

/-!
# Programs in pieces

A program that can be interrupted between its pieces. Each piece runs on the state that there is by then, and what comes
after it depends on that state. `exec` runs the pieces one after the other, with nothing in between.
-/

namespace DromozoaFuse.Base

inductive Pieces (ε σ α : Type)
  | done (out : Except ε α)
  | piece (run : σ → σ) (rest : σ → Pieces ε σ α)

namespace Pieces

variable {ε σ τ α β : Type}

def exec : Pieces ε σ α → σ → Except ε α × σ
  | done out, s => (out, s)
  | piece run rest, s => (rest s).exec (run s)

protected def bind : Pieces ε σ α → (α → Pieces ε σ β) → Pieces ε σ β
  | done (.ok a), f => f a
  | done (.error e), _ => done (.error e)
  | piece run rest, f => piece run fun s => (rest s).bind f

instance : Monad (Pieces ε σ) where
  pure a := done (.ok a)
  bind := Pieces.bind

@[simp] theorem exec_done (out : Except ε α) (s : σ) : (done out).exec s = (out, s) := rfl

@[simp] theorem exec_pure (a : α) (s : σ) : (pure a : Pieces ε σ α).exec s = (.ok a, s) := rfl

theorem exec_bind (c : Pieces ε σ α) (f : α → Pieces ε σ β) (s : σ) :
    (c >>= f).exec s =
      match c.exec s with
      | (.ok a, s') => (f a).exec s'
      | (.error e, s') => (.error e, s') := by
  change (c.bind f).exec s = _
  induction c generalizing s with
  | done out => cases out <;> rfl
  | piece run rest ih => exact ih s (run s)

/-! ## Pieces of a program -/

/-- A program on two states as a function of both. It leaves the first one as it is when it throws. -/
def onPair (x : StateT τ (Prog ε σ) α) (p : τ × σ) : Except ε α × (τ × σ) :=
  match (x.run p.1).exec p.2 with
  | (.ok (a, t), s) => (.ok a, (t, s))
  | (.error e, s) => (.error e, (p.1, s))

/-- A program in one piece. -/
def whole (x : StateT τ (Prog ε σ) α) : Pieces ε (τ × σ) α :=
  piece (fun p => (onPair x p).2) fun p => done (onPair x p).1

/-- The pieces make up the program. What they leave of the first state when it throws does not matter. -/
def Cuts (c : Pieces ε (τ × σ) α) (x : StateT τ (Prog ε σ) α) : Prop :=
  ∀ t s, match (x.run t).exec s with
    | (.ok (a, t'), s') => c.exec (t, s) = (.ok a, (t', s'))
    | (.error e, s') => ∃ t', c.exec (t, s) = (.error e, (t', s'))

variable {c : Pieces ε (τ × σ) α} {x : StateT τ (Prog ε σ) α}

/-- What the pieces come to, the program comes to. -/
theorem Cuts.ok (h : Cuts c x) {t t' : τ} {s s' : σ} {a : α} (hc : c.exec (t, s) = (.ok a, (t', s'))) :
    (x.run t).exec s = (.ok (a, t'), s') := by
  have hcut := h t s
  split at hcut
  · rename_i hx
    rw [hc] at hcut
    cases hcut
    exact hx
  · obtain ⟨t'', ht⟩ := hcut
    rw [hc] at ht
    cases ht

theorem Cuts.whole (x : StateT τ (Prog ε σ) α) : Cuts (whole x) x := by
  intro t s
  simp only [Pieces.whole, exec, onPair]
  split
  · rfl
  · exact ⟨t, rfl⟩

theorem Cuts.pure (a : α) : Cuts (pure a : Pieces ε (τ × σ) α) (pure a) := fun _ _ => rfl

theorem Cuts.bind {f : α → Pieces ε (τ × σ) β} {g : α → StateT τ (Prog ε σ) β} (h : Cuts c x)
    (hf : ∀ a, Cuts (f a) (g a)) : Cuts (c >>= f) (x >>= g) := by
  intro t s
  have hcut := h t s
  rw [exec_bind, StateT.run_bind, Prog.exec_bind]
  split at hcut
  · rename_i a t' s' hx
    rw [hcut, hx]
    exact hf a t' s'
  · rename_i e s' hx
    obtain ⟨t', ht⟩ := hcut
    rw [ht, hx]
    exact ⟨t', rfl⟩

theorem Cuts.forM {γ : Type} {f : γ → Pieces ε (τ × σ) PUnit} {g : γ → StateT τ (Prog ε σ) PUnit} (l : List γ)
    (h : ∀ a, Cuts (f a) (g a)) : Cuts (l.forM f) (l.forM g) := by
  induction l with
  | nil => exact .pure _
  | cons a l ih => exact (h a).bind fun _ => ih

theorem Cuts.foldlM {γ : Type} {f : α → γ → Pieces ε (τ × σ) α} {g : α → γ → StateT τ (Prog ε σ) α} (l : List γ)
    (h : ∀ a c, Cuts (f a c) (g a c)) (a : α) : Cuts (l.foldlM f a) (l.foldlM g a) := by
  induction l generalizing a with
  | nil => exact .pure a
  | cons c l ih =>
      rw [List.foldlM_cons, List.foldlM_cons]
      exact (h a c).bind ih

end Pieces

end DromozoaFuse.Base
