/-!
# Pointers

A pointer to a value inside of a larger state.
-/

namespace DromozoaFuse.Base

structure Ptr (M α : Type) where
  get : M → α
  set : M → α → M
  get_set : ∀ m a, get (set m a) = a
  set_set : ∀ m a b, set (set m a) b = set m b
  set_get : ∀ m, set m (get m) = m

def Ptr.whole {M : Type} : Ptr M M := ⟨id, fun _ m => m, fun _ _ => rfl, fun _ _ _ => rfl, fun _ => rfl⟩

attribute [simp] Ptr.get_set Ptr.set_set Ptr.set_get

end DromozoaFuse.Base
