import DromozoaFuse.Lua.World

/-!
# Programs that keep a property of the heap

A property of the heap that no step of a program breaks, with what the steps record and return where
it holds.
-/

namespace DromozoaFuse.Lua

open Base

variable {H M α β : Type} {Q : Heap H → Prop} {E : Event → Prop}

/-- Where `Q` holds of the heap, `x` keeps it, records nothing but `E`, and returns nothing but `post`. -/
def Steady (Q : Heap H → Prop) (E : Event → Prop) (post : α → Prop) (x : HostM H M α) : Prop :=
  ∀ w, Q w.heap → Q (x.exec w).2.heap ∧ (∃ ev, (x.exec w).2.trace = w.trace ++ ev ∧ ∀ e ∈ ev, E e) ∧
    ∀ a, (x.exec w).1 = .ok a → post a

theorem Steady.silent {x : HostM H M α} (hheap : ∀ w, (x.exec w).2.heap = w.heap)
    (htr : ∀ w, (x.exec w).2.trace = w.trace) : Steady Q E (fun _ => True) x := fun w hQ =>
  ⟨by rw [hheap]; exact hQ, ⟨[], by simp [htr], by simp⟩, fun _ _ => trivial⟩

theorem Steady.pure {post : α → Prop} {a : α} (h : post a) : Steady Q E post (Pure.pure a : HostM H M α) :=
  fun w hQ => ⟨hQ, ⟨[], by simp, by simp⟩, fun b hb => by cases hb; exact h⟩

theorem Steady.error {post : α → Prop} {x : HostM H M α} (h : ∀ w, ∃ e, x.exec w = (.error e, w)) :
    Steady Q E post x := fun w hQ => by
  obtain ⟨e, he⟩ := h w
  rw [he]
  exact ⟨hQ, ⟨[], by simp, by simp⟩, fun b hb => by cases hb⟩

theorem Steady.bind {post : α → Prop} {post' : β → Prop} {x : HostM H M α} {f : α → HostM H M β}
    (hx : Steady Q E post x) (hf : ∀ a, post a → Steady Q E post' (f a)) : Steady Q E post' (x >>= f) := by
  intro w hQ
  obtain ⟨hheap, ⟨ev, htr, hev⟩, hpost⟩ := hx w hQ
  rcases hxw : x.exec w with ⟨e | a, w₁⟩
  · rw [hxw] at hheap htr
    rw [Prog.exec_bind_of_error hxw]
    exact ⟨hheap, ⟨ev, htr, hev⟩, fun b hb => by cases hb⟩
  · rw [hxw] at hheap htr hpost
    obtain ⟨hheap', ⟨ev', htr', hev'⟩, hpost'⟩ := hf a (hpost a rfl) w₁ hheap
    rw [Prog.exec_bind_of_ok hxw]
    refine ⟨hheap', ⟨ev ++ ev', by rw [htr', htr, List.append_assoc], ?_⟩, hpost'⟩
    intro e he
    exact (List.mem_append.mp he).elim (hev e) (hev' e)

theorem Steady.forM {γ : Type} {f : γ → HostM H M Unit} (xs : List γ)
    (h : ∀ x ∈ xs, Steady Q E (fun _ => True) (f x)) : Steady Q E (fun _ => True) (xs.forM f) := by
  induction xs with
  | nil => exact .pure trivial
  | cons x xs ih =>
      have hcons : ((x :: xs).forM f : HostM H M Unit) = (do f x; xs.forM f) := rfl
      rw [hcons]
      exact (h x (by simp)).bind fun _ _ => ih fun y hy => h y (List.mem_cons_of_mem _ hy)

/-! ## Objects with steady answers -/

/-- While `Q` holds, looking a key up in `o` gives the field of `f` and keeps `Q`. -/
def Answers (I : Interp H) (Q : Heap H → Prop) (o : Value) (f : Bytes → Value) : Prop :=
  ∀ h, Q h → ∀ key, (I.lookup o (.string key) h).1 = .ok (f key) ∧ Q (I.lookup o (.string key) h).2

theorem Answers.unique {I : Interp H} {o : Value} {f g : Bytes → Value} (hf : Answers I Q o f)
    (hg : Answers I Q o g) {h : Heap H} (hQ : Q h) : f = g :=
  funext fun key => Except.ok.inj ((hf h hQ key).1.symm.trans (hg h hQ key).1)

theorem Answers.of_plain {I : Interp H} {r : Nat} {f : Bytes → Value}
    (h : ∀ h, Q h → (h.tables r).metatable = false ∧ (h.tables r).fields = f) : Answers I Q (.table r) f := by
  intro heap hQ key
  obtain ⟨hplain, hfields⟩ := h heap hQ
  simp [Interp.lookup, Heap.rawget, hplain, hfields, hQ]

theorem Steady.gettable {I : Interp H} {o : Value} {f : Bytes → Value} (h : Answers I Q o f) {key : Bytes}
    (hE : E (.read o (.string key) (.ok (f key)))) :
    Steady Q E (· = f key) (I.gettable o (.string key) : HostM H M Value) := by
  intro w hQ
  obtain ⟨hreply, hheap⟩ := h w.heap hQ key
  refine ⟨hheap, ⟨[.read o (.string key) (.ok (f key))], ?_, by simpa using hE⟩, ?_⟩
  · rw [← hreply]
    rfl
  · intro v hv
    exact Except.ok.inj ((hv.symm).trans hreply)

/-- Looking anything up keeps `Q`, whatever it gives. -/
def LookupsKeep (I : Interp H) (Q : Heap H → Prop) : Prop := ∀ o key h, Q h → Q (I.lookup o key h).2

abbrev Keeps (Q : Heap H → Prop) (x : HostM H M α) : Prop := Steady Q (fun _ => True) (fun _ => True) x

theorem Keeps.gettable {I : Interp H} (h : LookupsKeep I Q) (o key : Value) :
    Keeps Q (I.gettable o key : HostM H M Value) := fun w hQ =>
  ⟨h o key w.heap hQ, ⟨_, rfl, fun _ _ => trivial⟩, fun _ _ => trivial⟩

end DromozoaFuse.Lua
