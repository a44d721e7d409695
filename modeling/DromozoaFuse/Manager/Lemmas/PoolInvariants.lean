import DromozoaFuse.Manager.Lemmas.PoolSteps

/-!
# The invariants of the pool

The cap on live states is tested nowhere: a caller passes whenever an idle state exists. It follows
from `active_states_ + idle_states_.size()`, which no step raises above the larger of `start_states`
and `max_states`, and from `active_states_` counting at least the states held and in construction.
-/

namespace DromozoaFuse.Manager

open Base

variable {T : Type*} [Fintype T] {p : PoolParams}

/-! ## Counts after one caller changed its phase -/

/-- The places that a caller should take up in `active_states_`. -/
def Phase.place : Phase → Nat
  | .holding _ | .constructing => 1
  | _ => 0

theorem Phase.place_eq (ph : Phase) : ph.place = ph.isHolding + ph.isConstructing := by
  cases ph <;> rfl

theorem Phase.MayEnter.place {ph : Phase} (h : ph.MayEnter) : ph.place = 0 := by
  rcases h with rfl | rfl | rfl <;> rfl

namespace Moves

variable [DecidableEq T] {c c' : Config T} {t : T} {ph : Phase} {pool created closed}

theorem held (h : Moves c c' t ph pool created closed) :
    c'.held + (c.phase t).isHolding = c.held + ph.isHolding := by
  unfold Config.held
  rw [h.phase]
  exact tally_update _ _ _ _

theorem constructing (h : Moves c c' t ph pool created closed) :
    c'.constructing + (c.phase t).isConstructing = c.constructing + ph.isConstructing := by
  unfold Config.constructing
  rw [h.phase]
  exact tally_update _ _ _ _

theorem places (h : Moves c c' t ph pool created closed) :
    c'.held + c'.constructing + (c.phase t).place = c.held + c.constructing + ph.place := by
  have h₁ := h.held
  have h₂ := h.constructing
  simp only [Phase.place_eq]
  omega

theorem owners (h : Moves c c' t ph pool created closed) (s : Nat) :
    c'.owners s + (c.phase t).holds s + (c.phase t).discards s + c.pool.idle_states.count s +
        c.closed.count s =
      c.owners s + ph.holds s + ph.discards s + pool.idle_states.count s + closed.count s := by
  have h₁ := tally_update (Phase.holds s) c.phase t ph
  have h₂ := tally_update (Phase.discards s) c.phase t ph
  simp only [Config.owners, h.phase, h.pool, h.closed]
  omega

end Moves

theorem held_pos {c : Config T} {t : T} {s : Nat} (h : c.phase t = .holding s) : 0 < c.held := by
  have hle := le_tally Phase.isHolding c.phase t
  rw [h] at hle
  exact hle

theorem holds_pos {c : Config T} {t : T} {s : Nat} (h : c.phase t = .holding s) :
    0 < tally (Phase.holds s) c.phase := by
  have hle := le_tally (Phase.holds s) c.phase t
  simp only [h, Phase.holds, ↓reduceIte] at hle
  exact hle

theorem discards_pos {c : Config T} {t : T} {s : Nat} (h : c.phase t = .discarding s) :
    0 < tally (Phase.discards s) c.phase := by
  have hle := le_tally (Phase.discards s) c.phase t
  simp only [h, Phase.discards, ↓reduceIte] at hle
  exact hle

/-! ## The counter and the idle list -/

theorem not_waits_of_cons {s : Pool} {front rest} (hi : s.idle_states = front :: rest) :
    ¬ s.waits p := by
  simp [Pool.waits, hi]

theorem not_waits_of_lt {s : Pool} (hlt : s.active_states < p.max_states) : ¬ s.waits p := by
  simp only [Pool.waits, not_and, not_le]
  exact fun _ => hlt

/-- What `active_states_` counts and how far it and the idle list can grow. -/
structure Ledger (p : PoolParams) (c : Config T) : Prop where
  counted : c.held + c.constructing ≤ c.pool.active_states
  bounded : c.pool.active_states + c.pool.idle_states.length ≤ max p.start_states p.max_states
  idle_le : c.pool.idle_states.length ≤ max p.start_states p.max_idle_states

theorem ledger_init : Ledger p (Config.init p : Config T) where
  counted := by simp [Config.held, Config.constructing, Config.init, tally]
  bounded := by simp [Config.init]
  idle_le := by simp [Config.init]

namespace Ledger

variable {c : Config T} (h : Ledger p c)

include h

/-- The decrement in `close()` does not wrap. -/
theorem active_pos {t : T} {s : Nat} (ht : c.phase t = .holding s) : 0 < c.pool.active_states := by
  have := h.counted
  have := held_pos ht
  omega

theorem active_sub {t : T} {s : Nat} (ht : c.phase t = .holding s) :
    size_dec c.pool.active_states = c.pool.active_states - 1 := by
  have := h.bounded
  have := p.start_lt
  have := p.max_lt
  exact size_dec_eq (h.active_pos ht) (by omega)

/-- The increment in `open()` does not wrap: a caller passes below `max_states` or takes an idle state. -/
theorem active_add (hpass : ¬ c.pool.waits p) :
    size_inc c.pool.active_states = c.pool.active_states + 1 := by
  refine size_inc_eq ?_
  have hb := h.bounded
  have := p.start_lt
  have := p.max_lt
  cases hi : c.pool.idle_states with
  | nil => simp only [Pool.waits, hi, true_and] at hpass; omega
  | cons front rest => simp only [hi, List.length_cons] at hb; omega

end Ledger

variable [DecidableEq T]

theorem Trans.ledger {c c' : Config T} {a : Act T} (htr : Trans p c c' a) (h : Ledger p c) :
    Ledger p c' := by
  obtain ⟨hcount, hbound, hidle⟩ := id h
  cases htr with
  | park _ ht _ hm =>
      have hplaces := hm.places
      rw [ht.place] at hplaces
      simp only [Phase.place] at hplaces
      constructor <;> rw [hm.pool] <;> omega
  | take _ ht hi hm =>
      have hplaces := hm.places
      have hadd := h.active_add (not_waits_of_cons hi)
      rw [ht.place] at hplaces
      simp only [Phase.place] at hplaces
      simp only [hi, List.length_cons] at hbound hidle
      constructor <;> rw [hm.pool] <;> simp only [hadd] <;> omega
  | begin _ ht hi hlt hm =>
      have hplaces := hm.places
      have hadd := h.active_add (not_waits_of_lt hlt)
      rw [ht.place] at hplaces
      simp only [Phase.place] at hplaces
      constructor <;> rw [hm.pool] <;> simp only [hadd, List.length_nil] <;> omega
  | wake ht hm | throw ht hm | construct ht hm | lua_close ht hm =>
      have hplaces := hm.places
      simp only [ht, Phase.place] at hplaces
      constructor <;> rw [hm.pool] <;> omega
  | keep ht hlt hm =>
      have hplaces := hm.places
      have hsub := h.active_sub ht
      have hpos := h.active_pos ht
      simp only [ht, Phase.place] at hplaces
      constructor <;> rw [hm.pool] <;>
        simp only [hsub, List.length_append, List.length_singleton] <;> omega
  | discard ht _ hm =>
      have hplaces := hm.places
      have hsub := h.active_sub ht
      have hpos := h.active_pos ht
      simp only [ht, Phase.place] at hplaces
      constructor <;> rw [hm.pool] <;> simp only [hsub] <;> omega

/-! ## Who has a state -/

def Owned (c : Config T) : Prop := ∀ s, c.owners s = if s < c.created then 1 else 0

omit [DecidableEq T] in
theorem Owned.exclusive {c : Config T} (h : Owned c) {t u : T} {s : Nat} (ht : c.phase t = .holding s)
    (hu : c.phase u = .holding s) : t = u := by
  by_contra hne
  have hone : c.owners s ≤ 1 := by rw [h s]; split <;> omega
  have htwo := add_le_tally (Phase.holds s) c.phase hne
  simp only [ht, hu, Phase.holds, ↓reduceIte] at htwo
  unfold Config.owners at hone
  omega

omit [DecidableEq T] in
theorem owned_init : Owned (Config.init p : Config T) := by
  intro s
  by_cases hs : s < p.start_states
  · have hcount : (List.range p.start_states).count s = 1 :=
      List.count_eq_one_of_mem List.nodup_range (List.mem_range.mpr hs)
    simp [Config.owners, Config.init, tally, hcount, hs]
  · have hcount : (List.range p.start_states).count s = 0 :=
      List.count_eq_zero.mpr (by rwa [List.mem_range])
    simp [Config.owners, Config.init, tally, hcount, hs]

theorem Trans.owned {c c' : Config T} {a : Act T} (htr : Trans p c c' a) (h : Owned c) : Owned c' := by
  intro s
  have hs := h s
  cases htr with
  | park _ ht _ hm | begin _ ht _ _ hm =>
      have ho := hm.owners s
      rw [ht.holds, ht.discards] at ho
      simp only [Phase.holds, Phase.discards] at ho
      rw [hm.created]
      simp_all
  | take _ ht hi hm =>
      have ho := hm.owners s
      rw [ht.holds, ht.discards, hi] at ho
      simp only [Phase.holds, Phase.discards, List.count_cons, beq_iff_eq] at ho
      rw [hm.created]
      split_ifs at ho hs ⊢ <;> omega
  | wake ht hm | throw ht hm | construct ht hm | discard ht _ hm =>
      have ho := hm.owners s
      simp only [ht, Phase.holds, Phase.discards] at ho
      rw [hm.created]
      split_ifs at ho hs ⊢ <;> omega
  | keep ht _ hm =>
      have ho := hm.owners s
      simp only [ht, Phase.holds, Phase.discards, List.count_append, List.count_singleton, beq_iff_eq] at ho
      rw [hm.created]
      split_ifs at ho hs ⊢ <;> omega
  | lua_close ht hm =>
      have ho := hm.owners s
      simp only [ht, Phase.holds, Phase.discards, List.count_cons, beq_iff_eq] at ho
      rw [hm.created]
      split_ifs at ho hs ⊢ <;> omega

/-! ## Nobody signals -/

def Unsignalled (c : Config T) : Prop := ∀ t, c.phase t ≠ .waiting .signalled

omit [Fintype T] [DecidableEq T] in
theorem unsignalled_init : Unsignalled (Config.init p : Config T) := by
  intro t h
  cases h

omit [Fintype T] in
theorem Moves.unsignalled {c c' : Config T} {t : T} {ph : Phase} {pool created closed}
    (hm : Moves c c' t ph pool created closed) (hph : ph ≠ .waiting .signalled) (h : Unsignalled c) :
    Unsignalled c' := by
  intro u
  rw [hm.phase]
  by_cases hu : u = t
  · subst hu
    rw [Function.update_self]
    exact hph
  · rw [Function.update_of_ne hu]
    exact h u

omit [Fintype T] in
theorem Trans.unsignalled {c c' : Config T} {a : Act T} (htr : Trans p c c' a) (h : Unsignalled c) :
    Unsignalled c' := by
  cases htr with
  | park _ _ _ hm | take _ _ _ hm | begin _ _ _ _ hm | wake _ hm | construct _ hm | throw _ hm
  | keep _ _ hm | discard _ _ hm | lua_close _ hm => exact hm.unsignalled (by simp) h

/-! ## The invariants in every reachable configuration -/

structure PoolInv (p : PoolParams) (c : Config T) : Prop where
  ledger : Ledger p c
  owned : Owned c
  unsignalled : Unsignalled c

omit [DecidableEq T] in
theorem poolInv_init : PoolInv p (Config.init p : Config T) :=
  ⟨ledger_init, owned_init, unsignalled_init⟩

theorem poolInv_step (c : Config T) (a : Act T) (c' : Config T) (h : PoolInv p c)
    (hs : step p c a = some c') : PoolInv p c' :=
  have htr := step_trans hs
  ⟨htr.ledger h.ledger, htr.owned h.owned, htr.unsignalled h.unsignalled⟩

theorem poolInv_reachable {c : Config T} (h : Reachable (step p) (Config.init p) c) : PoolInv p c :=
  h.invariant poolInv_init poolInv_step

end DromozoaFuse.Manager
