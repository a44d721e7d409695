import DromozoaFuse.Base.Run
import DromozoaFuse.Base.Threads

/-!
# Monitors

An object whose member functions run under an error-checking mutex and wait on one condition variable, and
any number of threads that call them. A step is one statement of a critical section, or one thing that a
thread does outside of it. `Atomic` has whole critical sections for steps. Both reach the same
configurations in which the mutex is free, so what is proved of whole sections holds of single statements.
-/

namespace DromozoaFuse.Base

/-- What a statement does under the mutex: it changes what the mutex guards and goes on, it signals the
condition variable, it waits on it, or it unlocks the mutex at the end. -/
inductive Effect (σ κ ρ : Type*)
  | go (s : σ) (k : κ)
  | signal (k : κ)
  | wait (k : κ)
  | unlock (r : ρ)

/-- `calls` is where the function starts that a thread calls, `stmt` the statement at a point, and `outer`
what threads do outside, to what the mutex does not guard. -/
structure Monitor (σ ε κ ρ β : Type*) where
  calls : ρ → Option κ
  stmt : κ → σ → Effect σ κ ρ
  outer : β → ε → ρ → Option (ε × ρ)

namespace Monitor

variable {T σ ε κ ρ β : Type*}

/-! ## Statement by statement -/

/-- Where a thread stands. A `failed` one has got an error from the mutex. -/
inductive Place (κ ρ : Type*)
  | outside (r : ρ)
  | locking (r : ρ)
  | inside (k : κ)
  | waiting (w : Wait) (k : κ)
  | failed

def Place.isParked : Place κ ρ → Bool
  | .waiting .parked _ => true
  | _ => false

structure Config (T σ ε κ ρ : Type*) where
  owner : Option T
  shared : σ
  env : ε
  place : T → Place κ ρ

/-- A thread calls a function, takes the mutex, runs a statement, wakes up spuriously, or does something
outside. The label of a signal says who gets it. -/
inductive Act (T β : Type*)
  | call (t : T)
  | lock (t : T)
  | stmt (t : T) (signalled : Option T)
  | wake (t : T)
  | outer (t : T) (b : β)

variable [DecidableEq T]

def Config.move (c : Config T σ ε κ ρ) (t : T) (pl : Place κ ρ) : Config T σ ε κ ρ :=
  { c with place := Function.update c.place t pl }

/-- `pthread_mutex_lock`, in front of the statement at `k`. The owner gets `EDEADLK`, others have to wait. -/
def Config.lock (c : Config T σ ε κ ρ) (t : T) (k : κ) : Option (Config T σ ε κ ρ) :=
  match c.owner with
  | none => some ({ c with owner := some t }.move t (.inside k))
  | some u => if u = t then some (c.move t .failed) else none

/-- `pthread_mutex_unlock`, and where the thread stands then. Others than the owner get `EPERM`. -/
def Config.unlock (c : Config T σ ε κ ρ) (t : T) (pl : Place κ ρ) : Config T σ ε κ ρ :=
  if c.owner = some t then { c with owner := none }.move t pl else c.move t .failed

variable [Fintype T]

def step (m : Monitor σ ε κ ρ β) (c : Config T σ ε κ ρ) : Act T β → Option (Config T σ ε κ ρ)
  | .call t =>
      match c.place t with
      | .outside r => if (m.calls r).isSome then some (c.move t (.locking r)) else none
      | _ => none
  | .lock t =>
      match c.place t with
      | .locking r => (m.calls r).bind (c.lock t)
      | .waiting w k => if w = .parked then none else c.lock t k
      | _ => none
  | .stmt t signalled =>
      match c.place t with
      | .inside k =>
          match m.stmt k c.shared, signalled with
          | .go s k', none => some ({ c with shared := s }.move t (.inside k'))
          | .signal k', some u =>
              match c.place u with
              | .waiting .parked k'' => some ((c.move u (.waiting .signalled k'')).move t (.inside k'))
              | _ => none
          | .signal k', none => if ∀ u, (c.place u).isParked = false then some (c.move t (.inside k')) else none
          | .wait k', none => some (c.unlock t (.waiting .parked k'))
          | .unlock r, none => some (c.unlock t (.outside r))
          | _, _ => none
      | _ => none
  | .wake t =>
      match c.place t with
      | .waiting .parked k => some (c.move t (.waiting .spurious k))
      | _ => none
  | .outer t b =>
      match c.place t with
      | .outside r => (m.outer b c.env r).map fun p => { c with env := p.1 }.move t (.outside p.2)
      | _ => none

/-! ## Section by section -/

/-- Where a thread stands between two critical sections. -/
inductive Rest (κ ρ : Type*)
  | outside (r : ρ)
  | waiting (w : Wait) (k : κ)

/-- What there is between two critical sections. -/
@[ext] structure View (T σ ε κ ρ : Type*) where
  shared : σ
  env : ε
  rest : T → Rest κ ρ

/-- Where the critical section starts that a thread may enter. -/
def Rest.entry (m : Monitor σ ε κ ρ β) : Rest κ ρ → Option κ
  | .outside r => m.calls r
  | .waiting .parked _ => none
  | .waiting _ k => some k

/-- From `k` on, the section makes `n` signals, leaves `s'` behind, and its thread stands at `r` then. -/
inductive Section (m : Monitor σ ε κ ρ β) : κ → σ → Nat → σ → Rest κ ρ → Prop
  | go {k s s₁ k₁ n s' r} : m.stmt k s = .go s₁ k₁ → Section m k₁ s₁ n s' r → Section m k s n s' r
  | signal {k s k₁ n s' r} : m.stmt k s = .signal k₁ → Section m k₁ s n s' r → Section m k s (n + 1) s' r
  | wait {k s k'} : m.stmt k s = .wait k' → Section m k s 0 s (.waiting .parked k')
  | unlock {k s r} : m.stmt k s = .unlock r → Section m k s 0 s (.outside r)

/-- A section that started at `k` has come to `k'`, with `n` signals so far. -/
inductive Within (m : Monitor σ ε κ ρ β) (k : κ) (s : σ) : Nat → κ → σ → Prop
  | start : Within m k s 0 k s
  | go {n k₁ s₁ k₂ s₂} : Within m k s n k₁ s₁ → m.stmt k₁ s₁ = .go s₂ k₂ → Within m k s n k₂ s₂
  | signal {n k₁ s₁ k₂} : Within m k s n k₁ s₁ → m.stmt k₁ s₁ = .signal k₂ → Within m k s (n + 1) k₂ s₁

/-- One signal: a parked thread gets it, or none is parked. -/
inductive Signal : (T → Rest κ ρ) → (T → Rest κ ρ) → Prop
  | some {rest u k} : rest u = .waiting .parked k → Signal rest (Function.update rest u (.waiting .signalled k))
  | none {rest} : (∀ u k, rest u ≠ .waiting .parked k) → Signal rest rest

inductive Signals : Nat → (T → Rest κ ρ) → (T → Rest κ ρ) → Prop
  | zero {rest} : Signals 0 rest rest
  | succ {n rest rest₁ rest₂} : Signals n rest rest₁ → Signal rest₁ rest₂ → Signals (n + 1) rest rest₂

/-- A whole section, a spurious wake-up, or something that a thread does outside. -/
inductive Atomic (m : Monitor σ ε κ ρ β) : View T σ ε κ ρ → View T σ ε κ ρ → Prop
  | enter {v t k n s r rest} : (v.rest t).entry m = some k → Section m k v.shared n s r → Signals n v.rest rest →
      Atomic m v ⟨s, v.env, Function.update rest t r⟩
  | wake {v t k} : v.rest t = .waiting .parked k →
      Atomic m v ⟨v.shared, v.env, Function.update v.rest t (.waiting .spurious k)⟩
  | outer {v t r b env r'} : v.rest t = .outside r → m.outer b v.env r = some (env, r') →
      Atomic m v ⟨v.shared, env, Function.update v.rest t (.outside r')⟩

/-- A system with whole sections for steps. -/
structure Models {γ α : Type*} (m : Monitor σ ε κ ρ β) (astep : γ → α → Option γ) (view : γ → View T σ ε κ ρ) :
    Prop where
  sound : ∀ c a c', astep c a = some c' → m.Atomic (view c) (view c')
  complete : ∀ c v, m.Atomic (view c) v → ∃ a c', astep c a = some c' ∧ view c' = v

/-! ## Sections -/

section

variable {m : Monitor σ ε κ ρ β} {k k₁ : κ} {s s₁ s' : σ} {n : Nat} {r : Rest κ ρ} {r₁ : ρ}

theorem section_go (h : m.stmt k s = .go s₁ k₁) : Section m k s n s' r ↔ Section m k₁ s₁ n s' r := by
  refine ⟨fun hs => ?_, .go h⟩
  cases hs <;> simp_all

theorem section_signal (h : m.stmt k s = .signal k₁) :
    Section m k s n s' r ↔ ∃ i, n = i + 1 ∧ Section m k₁ s i s' r := by
  refine ⟨fun hs => ?_, fun ⟨i, hn, hs⟩ => hn ▸ .signal h hs⟩
  cases hs <;> simp_all

theorem section_wait (h : m.stmt k s = .wait k₁) :
    Section m k s n s' r ↔ n = 0 ∧ s' = s ∧ r = .waiting .parked k₁ := by
  constructor
  · intro hs
    cases hs <;> simp_all
  · rintro ⟨rfl, rfl, rfl⟩
    exact .wait h

theorem section_unlock (h : m.stmt k s = .unlock r₁) :
    Section m k s n s' r ↔ n = 0 ∧ s' = s ∧ r = .outside r₁ := by
  constructor
  · intro hs
    cases hs <;> simp_all
  · rintro ⟨rfl, rfl, rfl⟩
    exact .unlock h

theorem Within.finish {k₀ : κ} {s₀ : σ} {i : Nat} (h : Within m k₀ s₀ i k s) (hs : Section m k s n s' r) :
    Section m k₀ s₀ (i + n) s' r := by
  induction h generalizing n with
  | start => rwa [Nat.zero_add]
  | go _ hstmt ih => exact ih (.go hstmt hs)
  | signal _ hstmt ih =>
      rw [Nat.add_assoc, Nat.add_comm 1 n]
      exact ih (.signal hstmt hs)

end

/-! ## Signals -/

section

omit [Fintype T]

theorem Signal.cases_at {rest rest' : T → Rest κ ρ} (h : Signal rest rest') (u : T) :
    rest' u = rest u ∨ ∃ k, rest u = .waiting .parked k ∧ rest' u = .waiting .signalled k := by
  cases h with
  | @some v k hv =>
      by_cases hu : u = v
      · subst hu
        exact Or.inr ⟨k, hv, Function.update_self ..⟩
      · exact Or.inl (Function.update_of_ne hu ..)
  | none _ => exact Or.inl rfl

theorem Signals.cases_at {n : Nat} {rest rest' : T → Rest κ ρ} (h : Signals n rest rest') (u : T) :
    rest' u = rest u ∨ ∃ k, rest u = .waiting .parked k ∧ rest' u = .waiting .signalled k := by
  induction h with
  | zero => exact Or.inl rfl
  | succ _ hs ih =>
      rcases hs.cases_at u with heq | ⟨k, hparked, hsignalled⟩
      · rwa [heq]
      · rcases ih with heq | ⟨k', -, hsignalled'⟩
        · exact Or.inr ⟨k, heq ▸ hparked, hsignalled⟩
        · rw [hsignalled'] at hparked
          cases hparked

/-- A signal changes only threads that are parked. -/
theorem Signals.eq_of_not_parked {n : Nat} {rest rest' : T → Rest κ ρ} (h : Signals n rest rest') {u : T}
    (hu : ∀ k, rest u ≠ .waiting .parked k) : rest' u = rest u := by
  rcases h.cases_at u with heq | ⟨k, hparked, -⟩
  · exact heq
  · exact absurd hparked (hu k)

theorem Signal.update {rest rest' : T → Rest κ ρ} (h : Signal rest rest') {u : T} (hu : rest' u = rest u)
    {x : Rest κ ρ} (hx : ∀ k, x ≠ .waiting .parked k) :
    Signal (Function.update rest u x) (Function.update rest' u x) := by
  cases h with
  | @some v k hv =>
      by_cases huv : v = u
      · subst huv
        rw [Function.update_self, hv] at hu
        cases hu
      · rw [Function.update_comm huv]
        exact .some (by rwa [Function.update_of_ne huv])
  | none hnone =>
      refine .none fun v k => ?_
      by_cases hv : v = u
      · subst hv
        rw [Function.update_self]
        exact hx k
      · rw [Function.update_of_ne hv]
        exact hnone v k

/-- Signals that pass a thread by pass it by wherever it stands. -/
theorem Signals.update {n : Nat} {rest rest' : T → Rest κ ρ} (h : Signals n rest rest') {u : T}
    (hu : rest' u = rest u) {x : Rest κ ρ} (hx : ∀ k, x ≠ .waiting .parked k) :
    Signals n (Function.update rest u x) (Function.update rest' u x) := by
  induction h with
  | zero => exact .zero
  | @succ n rest rest₁ rest₂ h hs ih =>
      have hboth : rest₁ u = rest u ∧ rest₂ u = rest₁ u := by
        rcases h.cases_at u with h₁ | ⟨k, hparked, hsignalled⟩
        · exact ⟨h₁, hu.trans h₁.symm⟩
        · rcases hs.cases_at u with h₂ | ⟨k', hparked', -⟩
          · rw [h₂, hsignalled, hparked] at hu
            cases hu
          · rw [hsignalled] at hparked'
            cases hparked'
      exact .succ (ih hboth.1) (hs.update hboth.2 hx)

theorem Signals.head {n : Nat} {rest rest' : T → Rest κ ρ} (h : Signals (n + 1) rest rest') :
    ∃ rest₁, Signal rest rest₁ ∧ Signals n rest₁ rest' := by
  induction n generalizing rest' with
  | zero =>
      obtain _ | ⟨hzero, hs⟩ := h
      cases hzero
      exact ⟨_, hs, .zero⟩
  | succ n ih =>
      obtain _ | ⟨hn, hs⟩ := h
      obtain ⟨rest₁, hfirst, hrest⟩ := ih hn
      exact ⟨rest₁, hfirst, .succ hrest hs⟩

end

/-! ## Statements run sections -/

def Place.rest? : Place κ ρ → Option (Rest κ ρ)
  | .outside r | .locking r => some (.outside r)
  | .waiting w k => some (.waiting w k)
  | .inside _ | .failed => none

/-- A configuration of single statements and what there is between the sections. While a thread is inside, the
view is the one from before its section. -/
inductive Tracks (m : Monitor σ ε κ ρ β) (c : Config T σ ε κ ρ) (v : View T σ ε κ ρ) : Prop
  | free (howner : c.owner = none) (hshared : c.shared = v.shared) (henv : c.env = v.env)
      (hrest : ∀ u, (c.place u).rest? = some (v.rest u)) : Tracks m c v
  | busy {t k₀ k n rest} (howner : c.owner = some t) (hinside : c.place t = .inside k) (henv : c.env = v.env)
      (hentry : (v.rest t).entry m = some k₀)
      (hwithin : Within m k₀ v.shared n k c.shared) (hsignals : Signals n v.rest rest)
      (hrest : ∀ u, u ≠ t → (c.place u).rest? = some (rest u)) : Tracks m c v

section

omit [DecidableEq T] [Fintype T]

theorem Rest.not_parked_of_entry {m : Monitor σ ε κ ρ β} {r : Rest κ ρ} {k : κ} (h : r.entry m = some k) (k' : κ) :
    r ≠ .waiting .parked k' := by
  rintro rfl
  cases h

theorem Place.rest?_eq_parked {pl : Place κ ρ} {k : κ} (h : pl.rest? = some (.waiting .parked k)) :
    pl = .waiting .parked k := by
  cases pl <;> simp_all [rest?]

end

/-- What one step can do. -/
inductive Trans (m : Monitor σ ε κ ρ β) (c : Config T σ ε κ ρ) : Config T σ ε κ ρ → Prop
  | call {t r} : c.place t = .outside r → Trans m c (c.move t (.locking r))
  | lock {t r k} : (c.place t).rest? = some r → r.entry m = some k → c.owner = none →
      Trans m c ({ c with owner := some t }.move t (.inside k))
  | deadlock {t r} : (c.place t).rest? = some r → c.owner = some t → Trans m c (c.move t .failed)
  | go {t k s k'} : c.place t = .inside k → m.stmt k c.shared = .go s k' →
      Trans m c ({ c with shared := s }.move t (.inside k'))
  | signal {t k k' u k''} : c.place t = .inside k → m.stmt k c.shared = .signal k' →
      c.place u = .waiting .parked k'' → Trans m c ((c.move u (.waiting .signalled k'')).move t (.inside k'))
  | unheard {t k k'} : c.place t = .inside k → m.stmt k c.shared = .signal k' →
      (∀ u k'', c.place u ≠ .waiting .parked k'') → Trans m c (c.move t (.inside k'))
  | wait {t k k'} : c.place t = .inside k → m.stmt k c.shared = .wait k' →
      Trans m c (c.unlock t (.waiting .parked k'))
  | unlock {t k r} : c.place t = .inside k → m.stmt k c.shared = .unlock r → Trans m c (c.unlock t (.outside r))
  | wake {t k} : c.place t = .waiting .parked k → Trans m c (c.move t (.waiting .spurious k))
  | outer {t r b env r'} : c.place t = .outside r → m.outer b c.env r = some (env, r') →
      Trans m c ({ c with env }.move t (.outside r'))

omit [Fintype T] in
theorem lock_trans {m : Monitor σ ε κ ρ β} {c c' : Config T σ ε κ ρ} {t : T} {r : Rest κ ρ} {k : κ}
    (hr : (c.place t).rest? = some r) (hk : r.entry m = some k) (h : c.lock t k = some c') : Trans m c c' := by
  unfold Config.lock at h
  split at h
  · rename_i howner
    cases h
    exact .lock hr hk howner
  · rename_i u howner
    split at h
    · rename_i hu
      cases h
      exact .deadlock hr (hu ▸ howner)
    · cases h

theorem step_trans {m : Monitor σ ε κ ρ β} {c c' : Config T σ ε κ ρ} {a : Act T β} (h : step m c a = some c') :
    Trans m c c' := by
  cases a with
  | call t =>
      simp only [step] at h
      split at h
      · rename_i r hr
        split at h
        · cases h
          exact .call hr
        · cases h
      · cases h
  | lock t =>
      simp only [step] at h
      split at h
      · rename_i r hr
        obtain ⟨k, hk, hlock⟩ := Option.bind_eq_some_iff.mp h
        exact lock_trans (r := .outside r) (by rw [hr]; rfl) hk hlock
      · rename_i w k hw
        split at h
        · cases h
        · rename_i hparked
          refine lock_trans (r := .waiting w k) (by rw [hw]; rfl) ?_ h
          cases w <;> first | rfl | exact absurd rfl hparked
      · cases h
  | stmt t signalled =>
      simp only [step] at h
      split at h
      · rename_i k hk
        split at h
        · cases h
          exact .go hk ‹_›
        · split at h
          · cases h
            exact .signal hk ‹_› ‹_›
          · cases h
        · split at h
          · rename_i hnone
            cases h
            refine .unheard hk ‹_› fun u k'' hu => ?_
            have := hnone u
            rw [hu] at this
            cases this
          · cases h
        · cases h
          exact .wait hk ‹_›
        · cases h
          exact .unlock hk ‹_›
        · cases h
      · cases h
  | wake t =>
      simp only [step] at h
      split at h
      · cases h
        exact .wake ‹_›
      · cases h
  | outer t b =>
      simp only [step] at h
      split at h
      · rename_i r hr
        obtain ⟨⟨env, r'⟩, hp, rfl⟩ := Option.map_eq_some_iff.mp h
        exact .outer hr hp
      · cases h

section

variable {m : Monitor σ ε κ ρ β} {c : Config T σ ε κ ρ} {v : View T σ ε κ ρ}

omit [Fintype T]

theorem Tracks.env_eq (h : Tracks m c v) : c.env = v.env := by
  cases h <;> assumption

theorem Tracks.of_free (h : Tracks m c v) (howner : c.owner = none) :
    c.shared = v.shared ∧ ∀ u, (c.place u).rest? = some (v.rest u) := by
  cases h with
  | free _ hshared _ hrest => exact ⟨hshared, hrest⟩
  | busy howner' => rw [howner] at howner'; cases howner'

/-- A thread that no signal is under way to stands in the view where it stands. -/
theorem Tracks.rest_eq (h : Tracks m c v) {u : T} {r : Rest κ ρ} (hu : (c.place u).rest? = some r)
    (hr : ∀ k, r ≠ .waiting .signalled k) : v.rest u = r := by
  cases h with
  | free howner hshared henv hrest => exact Option.some.inj ((hrest u).symm.trans hu)
  | @busy t k₀ k n rest howner hinside henv hentry hwithin hsignals hrest =>
      have hut : u ≠ t := by
        rintro rfl
        rw [hinside] at hu
        cases hu
      have heq : rest u = r := Option.some.inj ((hrest u hut).symm.trans hu)
      rcases hsignals.cases_at u with hsame | ⟨k', -, hsignalled⟩
      · exact hsame.symm.trans heq
      · exact absurd (heq.symm.trans hsignalled) (hr k')

/-- Such a thread may move, whoever is inside. -/
theorem Tracks.move (h : Tracks m c v) {u : T} {r x : Rest κ ρ} (hu : (c.place u).rest? = some r)
    (hr : ∀ k, r ≠ .waiting .signalled k) (pl : Place κ ρ) (hpl : pl.rest? = some x)
    (hx : ∀ k, x ≠ .waiting .parked k) (env : ε) :
    Tracks m ({ c with env }.move u pl) ⟨v.shared, env, Function.update v.rest u x⟩ := by
  have hv := h.rest_eq hu hr
  have hplace : ∀ rest : T → Rest κ ρ, ∀ w, (w ≠ u → (c.place w).rest? = some (rest w)) →
      (({ c with env }.move u pl).place w).rest? = some (Function.update rest u x w) := by
    intro rest w hw
    by_cases hwu : w = u
    · subst hwu
      simpa [Config.move] using hpl
    · simpa [Config.move, Function.update_of_ne hwu] using hw hwu
  cases h with
  | free howner hshared henv hrest => exact .free howner hshared rfl fun w => hplace v.rest w fun _ => hrest w
  | @busy t k₀ k n rest howner hinside henv hentry hwithin hsignals hrest =>
      have hut : u ≠ t := by
        rintro rfl
        rw [hinside] at hu
        cases hu
      have heq : rest u = v.rest u := hv ▸ Option.some.inj ((hrest u hut).symm.trans hu)
      refine .busy howner ?_ rfl ?_ hwithin (hsignals.update heq hx) fun w hw => hplace rest w fun _ => hrest w hw
      · simpa [Config.move, Function.update_of_ne hut.symm] using hinside
      · simpa [Function.update_of_ne hut.symm] using hentry

/-- The thread inside is the owner. -/
theorem Tracks.inside (h : Tracks m c v) {t : T} {k : κ} (hk : c.place t = .inside k) :
    ∃ k₀ n rest, c.owner = some t ∧ c.env = v.env ∧ (v.rest t).entry m = some k₀ ∧
      Within m k₀ v.shared n k c.shared ∧ Signals n v.rest rest ∧ ∀ u, u ≠ t → (c.place u).rest? = some (rest u) := by
  cases h with
  | free howner hshared henv hrest =>
      have ht := hrest t
      rw [hk] at ht
      cases ht
  | @busy t' k₀ k' n rest howner hinside henv hentry hwithin hsignals hrest =>
      obtain rfl : t = t' := by
        by_contra hne
        have ht := hrest t hne
        rw [hk] at ht
        cases ht
      rw [hk] at hinside
      cases hinside
      exact ⟨k₀, n, rest, howner, henv, hentry, hwithin, hsignals, hrest⟩

theorem Tracks.not_failed (h : Tracks m c v) (u : T) : c.place u ≠ .failed := by
  have hrest? : ∀ {pl : Place κ ρ} {r}, pl.rest? = some r → pl ≠ .failed := by
    rintro _ _ hpl rfl
    cases hpl
  cases h with
  | free _ _ _ hrest => exact hrest? (hrest u)
  | @busy t _ k _ _ _ hinside _ _ _ _ hrest =>
      by_cases hu : u = t
      · rw [hu, hinside]
        simp
      · exact hrest? (hrest u hu)

theorem Tracks.owner_iff (h : Tracks m c v) (t : T) : c.owner = some t ↔ ∃ k, c.place t = .inside k := by
  constructor
  · intro howner
    cases h with
    | free howner' => rw [howner] at howner'; cases howner'
    | busy howner' hinside =>
        rw [howner] at howner'
        cases howner'
        exact ⟨_, hinside⟩
  · rintro ⟨k, hk⟩
    obtain ⟨_, _, _, howner, _⟩ := h.inside hk
    exact howner

/-- The end of a section is where it is entered in the view. -/
theorem Tracks.leave (h : Tracks m c v) {t : T} {k : κ} (hk : c.place t = .inside k) (pl : Place κ ρ) {r : Rest κ ρ}
    (hpl : pl.rest? = some r) (hend : Section m k c.shared 0 c.shared r) :
    ∃ v', m.Atomic v v' ∧ Tracks m (c.unlock t pl) v' := by
  obtain ⟨k₀, n, rest, howner, henv, hentry, hwithin, hsignals, hrest⟩ := h.inside hk
  refine ⟨_, .enter hentry (hwithin.finish hend) hsignals, ?_⟩
  rw [Config.unlock, if_pos howner]
  refine .free rfl rfl henv fun u => ?_
  by_cases hu : u = t
  · subst hu
    simpa [Config.move] using hpl
  · simpa [Config.move, Function.update_of_ne hu] using hrest u hu

theorem Trans.tracks {c' : Config T σ ε κ ρ} (htr : Trans m c c') (h : Tracks m c v) :
    (∃ v', (v' = v ∨ m.Atomic v v') ∧ Tracks m c' v') := by
  cases htr with
  | @call t r hr =>
      have hrest : (c.place t).rest? = some (.outside r) := by rw [hr]; rfl
      have hv := h.rest_eq hrest (by simp)
      refine ⟨v, Or.inl rfl, ?_⟩
      have hmove := h.move hrest (by simp) (.locking r) (x := .outside r) rfl (by simp) c.env
      have hsame : (⟨v.shared, c.env, v.rest⟩ : View T σ ε κ ρ) = v := by rw [h.env_eq]
      rw [← hv, Function.update_eq_self, hsame] at hmove
      exact hmove
  | @lock t r k hr hk howner =>
      refine ⟨v, Or.inl rfl, ?_⟩
      cases h with
      | free _ hshared henv hrest =>
          have hv : v.rest t = r := Option.some.inj ((hrest t).symm.trans hr)
          refine .busy (t := t) (n := 0) rfl (Function.update_self ..) henv (hv ▸ hk) ?_ .zero fun u hu => ?_
          · rw [← hshared]
            exact .start
          · simpa [Config.move, Function.update_of_ne hu] using hrest u
      | busy howner' => rw [howner] at howner'; cases howner'
  | @deadlock t r hr howner =>
      cases h with
      | free howner' => rw [howner] at howner'; cases howner'
      | busy howner' hinside =>
          rw [howner] at howner'
          cases howner'
          rw [hinside] at hr
          cases hr
  | @go t k s k' hk hstmt =>
      obtain ⟨k₀, n, rest, howner, henv, hentry, hwithin, hsignals, hrest⟩ := h.inside hk
      refine ⟨v, Or.inl rfl, .busy howner (Function.update_self ..) henv hentry (hwithin.go hstmt) hsignals ?_⟩
      intro u hu
      simpa [Config.move, Function.update_of_ne hu] using hrest u hu
  | @signal t k k' u k'' hk hstmt hu =>
      obtain ⟨k₀, n, rest, howner, henv, hentry, hwithin, hsignals, hrest⟩ := h.inside hk
      have hut : u ≠ t := by
        rintro rfl
        rw [hk] at hu
        cases hu
      have hparked : rest u = .waiting .parked k'' := by
        have hrest := hrest u hut
        rw [hu] at hrest
        exact (Option.some.inj hrest).symm
      refine ⟨v, Or.inl rfl, .busy howner (Function.update_self ..) henv hentry (hwithin.signal hstmt)
        (hsignals.succ (.some hparked)) fun w hw => ?_⟩
      by_cases hwu : w = u
      · subst hwu
        simp [Config.move, Function.update_of_ne hw, Place.rest?]
      · simpa [Config.move, Function.update_of_ne hw, Function.update_of_ne hwu] using hrest w hw
  | @unheard t k k' hk hstmt hnone =>
      obtain ⟨k₀, n, rest, howner, henv, hentry, hwithin, hsignals, hrest⟩ := h.inside hk
      refine ⟨v, Or.inl rfl, .busy howner (Function.update_self ..) henv hentry (hwithin.signal hstmt)
        (hsignals.succ (.none fun u k'' hu => ?_)) ?_⟩
      · by_cases hut : u = t
        · subst hut
          rw [hsignals.eq_of_not_parked (Rest.not_parked_of_entry hentry)] at hu
          exact Rest.not_parked_of_entry hentry k'' hu
        · exact hnone u k'' (Place.rest?_eq_parked ((hrest u hut).trans (congrArg some hu)))
      · intro w hw
        simpa [Config.move, Function.update_of_ne hw] using hrest w hw
  | wait hk hstmt =>
      obtain ⟨v', hstep, htracks⟩ := h.leave hk (.waiting .parked _) rfl (.wait hstmt)
      exact ⟨v', Or.inr hstep, htracks⟩
  | unlock hk hstmt =>
      obtain ⟨v', hstep, htracks⟩ := h.leave hk (.outside _) rfl (.unlock hstmt)
      exact ⟨v', Or.inr hstep, htracks⟩
  | @wake t k hk =>
      have hrest : (c.place t).rest? = some (.waiting .parked k) := by rw [hk]; rfl
      refine ⟨_, Or.inr (.wake (h.rest_eq hrest (by simp))), ?_⟩
      rw [← h.env_eq]
      exact h.move hrest (by simp) (.waiting .spurious k) rfl (by simp) c.env
  | @outer t r b env r' hr hb =>
      have hrest : (c.place t).rest? = some (.outside r) := by rw [hr]; rfl
      rw [h.env_eq] at hb
      exact ⟨_, Or.inr (.outer (h.rest_eq hrest (by simp)) hb),
        h.move hrest (by simp) (.outside r') rfl (by simp) env⟩

end

/-! ## Sections run by statements -/

def Rest.place : Rest κ ρ → Place κ ρ
  | .outside r => .outside r
  | .waiting w k => .waiting w k

/-- The configuration of single statements in which nobody has called anything yet. -/
def View.config (v : View T σ ε κ ρ) : Config T σ ε κ ρ := ⟨none, v.shared, v.env, fun t => (v.rest t).place⟩

/-- Thread `t` is inside at `k`, and the others stand between two sections. -/
def entered (t : T) (k : κ) (s : σ) (env : ε) (rest : T → Rest κ ρ) : Config T σ ε κ ρ :=
  ⟨some t, s, env, Function.update (fun u => (rest u).place) t (.inside k)⟩

section

omit [DecidableEq T] [Fintype T]

@[simp] theorem Rest.place_outside (r : ρ) : (outside r : Rest κ ρ).place = .outside r := rfl

@[simp] theorem Rest.place_waiting (w : Wait) (k : κ) : (waiting w k : Rest κ ρ).place = .waiting w k := rfl

theorem Rest.place_rest? (r : Rest κ ρ) : r.place.rest? = some r := by
  cases r <;> rfl

theorem Rest.place_eq_parked {r : Rest κ ρ} {k : κ} : r.place = .waiting .parked k ↔ r = .waiting .parked k := by
  cases r <;> simp [place]

theorem Place.isParked_eq_false {pl : Place κ ρ} (h : ∀ k, pl ≠ .waiting .parked k) : pl.isParked = false := by
  unfold isParked
  split
  · exact absurd rfl (h _)
  · rfl

end

section

omit [Fintype T]

theorem place_update (rest : T → Rest κ ρ) (t : T) (r : Rest κ ρ) :
    (fun u => (Function.update rest t r u).place) = Function.update (fun u => (rest u).place) t r.place := by
  funext u
  by_cases hu : u = t
  · subst hu
    simp
  · simp [Function.update_of_ne hu]

theorem View.config_tracks (m : Monitor σ ε κ ρ β) (v : View T σ ε κ ρ) : Tracks m v.config v :=
  .free rfl rfl rfl fun u => (v.rest u).place_rest?

@[simp] theorem entered_shared (t : T) (k : κ) (s : σ) (env : ε) (rest : T → Rest κ ρ) :
    (entered t k s env rest).shared = s := rfl

@[simp] theorem entered_place_self (t : T) (k : κ) (s : σ) (env : ε) (rest : T → Rest κ ρ) :
    (entered t k s env rest).place t = .inside k := by
  simp only [entered, Function.update_self]

/-- The mutex, released at the end of a section. -/
theorem entered_unlock (t : T) (k : κ) (s : σ) (env : ε) (rest : T → Rest κ ρ) (r : Rest κ ρ) :
    (entered t k s env rest).unlock t r.place = View.config ⟨s, env, Function.update rest t r⟩ := by
  have howner : (entered t k s env rest).owner = some t := rfl
  rw [Config.unlock, if_pos howner, View.config, place_update]
  simp only [Config.move, entered, Function.update_idem]

theorem entered_move (t : T) (k k' : κ) (s : σ) (env : ε) (rest : T → Rest κ ρ) :
    (entered t k s env rest).move t (.inside k') = entered t k' s env rest := by
  simp only [Config.move, entered, Function.update_idem]

/-- A signal in the middle of a section. -/
theorem entered_signal {t u : T} (hut : u ≠ t) (k k' k'' : κ) (s : σ) (env : ε) (rest : T → Rest κ ρ) :
    ((entered t k s env rest).move u (.waiting .signalled k'')).move t (.inside k') =
      entered t k' s env (Function.update rest u (.waiting .signalled k'')) := by
  simp only [Config.move, entered, place_update, Rest.place_waiting]
  rw [Function.update_comm hut.symm, Function.update_idem, Function.update_comm hut]

end

theorem Section.run {m : Monitor σ ε κ ρ β} {k : κ} {s s' : σ} {n : Nat} {r : Rest κ ρ}
    (h : Section m k s n s' r) {t : T} {rest rest' : T → Rest κ ρ} (ht : ∀ k, rest t ≠ .waiting .parked k)
    (hsignals : Signals n rest rest') (env : ε) :
    Reachable (step m) (entered t k s env rest) (View.config ⟨s', env, Function.update rest' t r⟩) := by
  induction h generalizing rest with
  | @go k s s₁ k₁ n s' r hstmt _ ih =>
      refine Reachable.trans (Reachable.refl.tail (a := .stmt t none) ?_) (ih ht hsignals)
      simp only [step, entered, hstmt, Config.move, Function.update_self, Function.update_idem]
  | @signal k s k₁ n s' r hstmt _ ih =>
      obtain ⟨rest₁, hfirst, hrest⟩ := hsignals.head
      have ht₁ : ∀ k, rest₁ t ≠ .waiting .parked k := fun k hk => by
        rcases hfirst.cases_at t with heq | ⟨k', hparked, -⟩
        · exact ht k (heq ▸ hk)
        · exact ht k' hparked
      refine Reachable.trans ?_ (ih ht₁ hrest)
      cases hfirst with
      | @some u k' hu =>
          have hut : u ≠ t := by
            rintro rfl
            exact ht k' hu
          have hplace : (entered t k s env rest).place u = .waiting .parked k' := by
            simpa [entered, Function.update_of_ne hut, Rest.place_eq_parked] using hu
          refine Reachable.refl.tail (a := .stmt t (some u)) ?_
          simp only [step, entered_place_self, entered_shared, hstmt, hplace, entered_signal hut]
      | none hnone =>
          have hparked : ∀ u, ((entered t k s env rest).place u).isParked = false := by
            refine fun u => Place.isParked_eq_false fun k' hu => ?_
            by_cases hut : u = t
            · subst hut
              rw [entered_place_self] at hu
              cases hu
            · exact hnone u k' (by simpa [entered, Function.update_of_ne hut, Rest.place_eq_parked] using hu)
          refine Reachable.refl.tail (a := .stmt t none) ?_
          simp only [step, entered_place_self, entered_shared, hstmt, hparked, implies_true, if_true, entered_move]
  | @wait k s k' hstmt =>
      cases hsignals
      refine Reachable.refl.tail (a := .stmt t none) ?_
      simp only [step, entered_place_self, entered_shared, hstmt]
      exact congrArg some (entered_unlock t k s env _ (.waiting .parked k'))
  | @unlock k s r hstmt =>
      cases hsignals
      refine Reachable.refl.tail (a := .stmt t none) ?_
      simp only [step, entered_place_self, entered_shared, hstmt]
      exact congrArg some (entered_unlock t k s env _ (.outside r))

/-- The statements do all that whole sections do. -/
theorem Atomic.run {m : Monitor σ ε κ ρ β} {v v' : View T σ ε κ ρ} (h : m.Atomic v v') :
    Reachable (step m) v.config v'.config := by
  cases h with
  | @enter t k n s r rest hentry hsection hsignals =>
      refine Reachable.trans ?_ (hsection.run (Rest.not_parked_of_entry hentry) hsignals v.env)
      cases hrest : v.rest t with
      | outside r₀ =>
          rw [hrest] at hentry
          have hcalls : m.calls r₀ = some k := hentry
          have hcall : step m v.config (.call t) = some (v.config.move t (.locking r₀)) := by
            simp [step, View.config, hrest, Rest.place, hcalls]
          refine (Reachable.refl.tail hcall).tail (a := .lock t) ?_
          simp [step, View.config, Config.move, Config.lock, hcalls, entered]
      | waiting w k₀ =>
          rw [hrest] at hentry
          have hw : w ≠ .parked := by
            rintro rfl
            cases hentry
          obtain rfl : k₀ = k := by
            cases w <;> simp_all [Rest.entry]
          refine Reachable.refl.tail (a := .lock t) ?_
          simp [step, View.config, hrest, Rest.place, hw, Config.lock, Config.move, entered]
  | @wake t k hparked =>
      refine Reachable.refl.tail (a := .wake t) ?_
      simp only [step, View.config, hparked, Rest.place_waiting, Config.move, place_update]
  | @outer t r b env r' hr hb =>
      refine Reachable.refl.tail (a := .outer t b) ?_
      simp only [step, View.config, hr, Rest.place_outside, hb, Option.map_some, Config.move, place_update]

/-! ## The two systems -/

section

variable {γ α : Type*} {m : Monitor σ ε κ ρ β} {astep : γ → α → Option γ} {view : γ → View T σ ε κ ρ}

/-- Single statements refine whole sections. -/
theorem Models.refines (hm : Models m astep view) {c₀ : γ} {f : Config T σ ε κ ρ}
    (h : Reachable (step m) (view c₀).config f) : ∃ c, Reachable astep c₀ c ∧ Tracks m f (view c) := by
  refine h.simulated (R := fun f c => Tracks m f (view c)) (View.config_tracks m _) fun f a f' c htracks hstep => ?_
  obtain ⟨v', hv' | hatomic, htracks'⟩ := (step_trans hstep).tracks htracks
  · exact ⟨c, .refl, hv' ▸ htracks'⟩
  · obtain ⟨a', c', hstep', hview⟩ := hm.complete _ _ hatomic
    exact ⟨c', Reachable.refl.tail hstep', hview ▸ htracks'⟩

/-- Single statements realize whole sections. -/
theorem Models.realizes (hm : Models m astep view) {c₀ c : γ} (h : Reachable astep c₀ c) :
    Reachable (step m) (view c₀).config (view c).config := by
  have hstep : ∀ c a c' f, f = (view c).config → astep c a = some c' →
      ∃ f', Reachable (step m) f f' ∧ f' = (view c').config :=
    fun c a c' f hf hstep => ⟨_, hf ▸ (hm.sound _ _ _ hstep).run, rfl⟩
  obtain ⟨f, hf, hview⟩ := h.simulated (R := fun c f => f = (view c).config) rfl hstep
  exact hview ▸ hf

end

end Monitor

end DromozoaFuse.Base
