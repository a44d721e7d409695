import DromozoaFuse.Base.Run
import Mathlib.Data.Set.Insert
import Mathlib.Logic.Relation

/-!
# Garbage collection

A program changes its variables and the references of objects to each other, and uses only objects that
it can reach. A collector may at any point delete any objects that the program cannot reach. An object
survives wherever the collector runs exactly when the program can reach it to the end.
-/

namespace DromozoaFuse.Base

variable {α : Type*}

/-- The objects of a program, and its variables, which may hold none. The program cannot change what is in
`fixed`, nor the arguments of the native functions in progress. -/
structure Objects (α : Type*) where
  born : Set α
  refs : α → Set α
  fixed : Set α
  natives : List (List (Option α))
  vars : List (Option α)

namespace Objects

def roots (s : Objects α) : Set α :=
  {a | a ∈ s.fixed ∨ (∃ args ∈ s.natives, some a ∈ args) ∨ some a ∈ s.vars}

def Path (s : Objects α) : α → α → Prop := Relation.ReflTransGen fun a b => b ∈ s.refs a

def Reach (s : Objects α) (a : α) : Prop := ∃ r ∈ s.roots, s.Path r a

variable {s s' : Objects α} {a b x : α}

theorem Reach.root (h : a ∈ s.roots) : s.Reach a := ⟨a, h, .refl⟩

theorem Reach.ref (h : s.Reach a) (hb : b ∈ s.refs a) : s.Reach b := by
  obtain ⟨r, hr, hpath⟩ := h
  exact ⟨r, hr, hpath.tail hb⟩

/-- What holds of the roots and passes along references holds of what is reached. -/
theorem Reach.rule {P : α → Prop} (h : s.Reach x) (hroots : ∀ a ∈ s.roots, P a)
    (hrefs : ∀ a b, P a → b ∈ s.refs a → P b) : P x := by
  obtain ⟨r, hr, hpath⟩ := h
  induction hpath with
  | refl => exact hroots r hr
  | tail _ hb ih => exact hrefs _ _ ih hb

/-! ## What a program does -/

/-- One thing that a program does: it assigns to a variable, has a new variable, drops one, makes a new
object, revives one from a weak reference or a finalizer, adds or removes a reference, calls a native
function, or returns from one. -/
inductive Mutation (α : Type*)
  | assign (i : Nat) (v : Option α)
  | declare (v : Option α)
  | drop
  | create (i : Nat) (a : α)
  | revive (i : Nat) (a : α)
  | link (a b : α)
  | unlink (a b : α)
  | enter (args : List (Option α))
  | leave

def Mutation.revived? : Mutation α → Option α
  | .revive _ a => some a
  | _ => none

/-- A program has no objects but those it can reach, new ones, and those it revives. -/
def Allowed (s : Objects α) : Mutation α → Prop
  | .assign _ v | .declare v => ∀ a, v = some a → s.Reach a
  | .drop | .leave => True
  | .create _ a => a ∉ s.born
  | .revive _ a => a ∈ s.born
  | .link a b => s.Reach a ∧ s.Reach b
  | .unlink a _ => s.Reach a
  | .enter args => ∀ a, some a ∈ args → s.Reach a

open Classical in
noncomputable def mutate (s : Objects α) : Mutation α → Objects α
  | .assign i v => { s with vars := s.vars.set i v }
  | .declare v => { s with vars := s.vars ++ [v] }
  | .drop => { s with vars := s.vars.dropLast }
  | .create i a =>
      { s with
        born := insert a s.born
        refs := Function.update s.refs a ∅
        vars := s.vars.set i (some a) }
  | .revive i a => { s with vars := s.vars.set i (some a) }
  | .link a b => { s with refs := Function.update s.refs a (insert b (s.refs a)) }
  | .unlink a b => { s with refs := Function.update s.refs a (s.refs a \ {b}) }
  | .enter args => { s with natives := args :: s.natives }
  | .leave => { s with natives := s.natives.tail }

open Classical in
noncomputable def step (s : Objects α) (m : Mutation α) : Option (Objects α) :=
  if s.Allowed m then some (s.mutate m) else none

theorem step_eq_some {m : Mutation α} : s.step m = some s' ↔ s.Allowed m ∧ s' = s.mutate m := by
  unfold step
  split <;> simp_all [eq_comm]

theorem Reach.of_roots (hx : s'.Reach x) (hrefs : s'.refs = s.refs) (hroots : ∀ a ∈ s'.roots, s.Reach a) :
    s.Reach x :=
  hx.rule hroots fun a b ha hb => ha.ref (by rwa [← hrefs])

/-- Where the variables have at most `v` besides the old ones, so have the roots. -/
theorem roots_of_vars {v : Option α} (h : a ∈ s'.roots) (hfixed : s'.fixed = s.fixed)
    (hnatives : s'.natives = s.natives) (hvars : ∀ a, some a ∈ s'.vars → some a ∈ s.vars ∨ some a = v) :
    a ∈ s.roots ∨ some a = v := by
  rcases h with h | h | h
  · exact Or.inl (Or.inl (hfixed ▸ h))
  · exact Or.inl (Or.inr (Or.inl (hnatives ▸ h)))
  · exact (hvars a h).imp_left fun h => Or.inr (Or.inr h)

/-- A program does not get back what it cannot reach, unless it revives it. -/
theorem Reach.of_mutate {m : Mutation α} (h : s.Allowed m) (hx : (s.mutate m).Reach x) (hborn : x ∈ s.born)
    (hrevived : ∀ a, m.revived? = some a → ¬ s.Path a x) : s.Reach x := by
  classical
  cases m with
  | assign i v =>
      refine hx.of_roots rfl fun a ha => ?_
      rcases roots_of_vars (s := s) ha rfl rfl (fun _ => List.mem_or_eq_of_mem_set) with ha | ha
      · exact .root ha
      · exact h a ha.symm
  | declare v =>
      have hvars : ∀ a, some a ∈ s.vars ++ [v] → some a ∈ s.vars ∨ some a = v := fun a ha =>
        (List.mem_append.mp ha).imp_right List.mem_singleton.mp
      refine hx.of_roots rfl fun a ha => ?_
      rcases roots_of_vars (s := s) ha rfl rfl hvars with ha | ha
      · exact .root ha
      · exact h a ha.symm
  | drop =>
      refine hx.of_roots rfl fun a ha => .root ?_
      exact ha.imp_right (Or.imp_right fun ha => (List.dropLast_sublist _).subset ha)
  | create i a =>
      -- nothing refers to the new object but a variable, and it refers to nothing
      have hor : s.Reach x ∨ x = a := by
        refine hx.rule (P := fun y => s.Reach y ∨ y = a) ?_ ?_
        · intro y hy
          rcases roots_of_vars (s := s) hy rfl rfl (fun _ => List.mem_or_eq_of_mem_set) with hy | hy
          · exact Or.inl (.root hy)
          · exact Or.inr (Option.some.inj hy)
        · intro y z hy hz
          by_cases hya : y = a
          · simp [mutate, hya] at hz
          · simp only [mutate, Function.update_of_ne hya] at hz
            exact Or.inl ((hy.resolve_right hya).ref hz)
      rcases hor with hx | rfl
      · exact hx
      · exact absurd hborn h
  | revive i a =>
      have hor : s.Reach x ∨ s.Path a x := by
        refine hx.rule (P := fun y => s.Reach y ∨ s.Path a y) ?_ ?_
        · intro y hy
          rcases roots_of_vars (s := s) hy rfl rfl (fun _ => List.mem_or_eq_of_mem_set) with hy | hy
          · exact Or.inl (.root hy)
          · exact Or.inr (Option.some.inj hy ▸ .refl)
        · exact fun y z hy hz => hy.imp (·.ref hz) (·.tail hz)
      exact hor.resolve_right (hrevived a rfl)
  | link a b =>
      refine hx.rule (fun y hy => .root hy) fun y z hy hz => ?_
      by_cases hya : y = a
      · subst hya
        simp only [mutate, Function.update_self] at hz
        rcases hz with rfl | hz
        · exact h.2
        · exact hy.ref hz
      · simp only [mutate, Function.update_of_ne hya] at hz
        exact hy.ref hz
  | unlink a b =>
      refine hx.rule (fun y hy => .root hy) fun y z hy hz => ?_
      by_cases hya : y = a
      · subst hya
        simp only [mutate, Function.update_self] at hz
        exact hy.ref hz.1
      · simp only [mutate, Function.update_of_ne hya] at hz
        exact hy.ref hz
  | enter args =>
      refine hx.of_roots rfl fun a ha => ?_
      rcases ha with ha | ⟨args', hargs, ha⟩ | ha
      · exact .root (Or.inl ha)
      · rcases List.mem_cons.mp hargs with rfl | hargs
        · exact h a ha
        · exact .root (Or.inr (Or.inl ⟨args', hargs, ha⟩))
      · exact .root (Or.inr (Or.inr ha))
  | leave =>
      refine hx.of_roots rfl fun a ha => .root ?_
      exact ha.imp_right (Or.imp_left fun ⟨args, hargs, ha⟩ => ⟨args, List.mem_of_mem_tail hargs, ha⟩)

theorem born_mutate (s : Objects α) (m : Mutation α) : s.born ⊆ (s.mutate m).born := by
  cases m with
  | create i a => exact Set.subset_insert a s.born
  | _ => exact Set.Subset.rfl

theorem born_run {s₀ : Objects α} {tr : List (Objects α × Mutation α)} (h : Run step s₀ tr s) :
    s₀.born ⊆ s.born := by
  induction h with
  | nil => exact Set.Subset.rfl
  | snoc _ hs ih =>
      obtain ⟨-, rfl⟩ := step_eq_some.mp hs
      exact ih.trans (born_mutate _ _)

/-! ## Collections -/

/-- The collector may delete these. -/
def Garbage (s : Objects α) (dead : Set α) : Prop := ∀ a ∈ dead, a ∈ s.born ∧ ¬ s.Reach a

/-- The program does something, or the collector deletes some objects. -/
inductive Move (α : Type*)
  | mutate (m : Mutation α)
  | collect (dead : Set α)

def Move.mutation? : Move α → Option (Mutation α)
  | .mutate m => some m
  | .collect _ => none

open Classical in
/-- A program and the objects deleted so far. -/
noncomputable def collecting (p : Objects α × Set α) : Move α → Option (Objects α × Set α)
  | .mutate m => if ∀ a, m.revived? = some a → ∀ b ∈ p.2, ¬ p.1.Path a b then (p.1.step m).map (·, p.2) else none
  | .collect dead => if p.1.Garbage dead then some (p.1, p.2 ∪ dead) else none

/-- What the program did in a run with collections. -/
def mutations (tr : List ((Objects α × Set α) × Move α)) : List (Mutation α) :=
  tr.filterMap fun p => p.2.mutation?

/-- The collector deletes only what the program never reaches again. -/
theorem garbage_run {s₀ : Objects α} {tr : List ((Objects α × Set α) × Move α)} {p : Objects α × Set α}
    (h : Run collecting (s₀, ∅) tr p) : p.1.Garbage p.2 := by
  suffices hkept : Always (fun p : Objects α × Set α => p.1.Garbage p.2) tr p from hkept.2
  refine h.always (by simp [Garbage]) fun p m p' hp hstep => ?_
  cases m with
  | mutate m =>
      obtain ⟨hrevived, hmap⟩ := Option.ite_none_right_eq_some.mp hstep
      obtain ⟨s, hs, rfl⟩ := Option.map_eq_some_iff.mp hmap
      obtain ⟨hallowed, rfl⟩ := step_eq_some.mp hs
      intro a ha
      obtain ⟨hborn, hreach⟩ := hp a ha
      exact ⟨born_mutate _ _ hborn, fun hr => hreach (hr.of_mutate hallowed hborn fun b hb => hrevived b hb a ha)⟩
  | collect dead =>
      simp only [collecting, Option.ite_none_right_eq_some, Option.some.injEq] at hstep
      obtain ⟨hdead, rfl⟩ := hstep
      exact fun a ha => ha.elim (hp a) (hdead a)

theorem run_collecting {s₀ : Objects α} {tr : List (Objects α × Mutation α)} (h : Run step s₀ tr s) :
    ∃ tr', Run collecting (s₀, ∅) tr' (s, ∅) ∧ mutations tr' = tr.map Prod.snd := by
  induction h with
  | nil => exact ⟨[], .nil, rfl⟩
  | @snoc tr s m s' _ hs ih =>
      obtain ⟨tr', hrun, heq⟩ := ih
      refine ⟨tr' ++ [((s, ∅), .mutate m)], hrun.snoc (by simp [collecting, hs]), ?_⟩
      simp only [mutations, List.filterMap_append, List.map_append] at heq ⊢
      rw [heq]
      rfl

/-- An object survives a run wherever the collector comes in exactly when it is still reached at the end. -/
theorem survives_iff {s₀ : Objects α} (hx : x ∈ s₀.born) {tr : List (Objects α × Mutation α)}
    (h : Run step s₀ tr s) :
    (∀ tr' dead, Run collecting (s₀, ∅) tr' (s, dead) → mutations tr' = tr.map Prod.snd → x ∉ dead) ↔ s.Reach x := by
  constructor
  · intro hall
    by_contra hreach
    obtain ⟨tr', hrun, heq⟩ := run_collecting h
    have hgarbage : s.Garbage {x} := by
      rintro a rfl
      exact ⟨born_run h hx, hreach⟩
    refine hall (tr' ++ [((s, ∅), .collect {x})]) (∅ ∪ {x}) (hrun.snoc ?_) ?_ (Or.inr rfl)
    · simp [collecting, hgarbage]
    · simp only [mutations, List.filterMap_append] at heq ⊢
      rw [heq]
      simp [Move.mutation?]
  · exact fun hreach _ dead hrun _ hdead => (garbage_run hrun x hdead).2 hreach

end Objects

end DromozoaFuse.Base
