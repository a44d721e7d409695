import DromozoaFuse.Convert.Lemmas.Reading
import DromozoaFuse.FillDir.Lemmas.Calls

/-!
# The record of confined scripts

While the filler of a `readdir` is the only one in scope, whatever confined scripts do is on record.
-/

namespace DromozoaFuse.Fill

open Base Lua DromozoaFuse.Bind DromozoaFuse.Convert

variable {X M : Type} {filler : Filler} {scope : Option Active}

/-! ## Records -/

theorem Recorded.append {calls calls' : List Call} {entries entries' : List Entry}
    (h : Recorded scope calls entries) (h' : Recorded scope calls' entries') :
    Recorded scope (calls ++ calls') (entries ++ entries') := by
  induction h' with
  | nil => simpa using h
  | malformed _ ih => exact List.append_assoc .. ▸ .malformed ih
  | out_of_scope _ hother ih => exact List.append_assoc .. ▸ .out_of_scope ih hother
  | passed _ hscope ih =>
      rw [← List.append_assoc, ← List.append_assoc]
      exact .passed ih hscope

theorem Between.refl (host : Host (Logged X)) : Between scope host host := ⟨[], [], by simp, by simp, .nil⟩

theorem Between.trans {host host₁ host' : Host (Logged X)} (h : Between scope host host₁)
    (h' : Between scope host₁ host') : Between scope host host' := by
  obtain ⟨calls, entries, hcalls, hfilled, hrecorded⟩ := h
  obtain ⟨calls', entries', hcalls', hfilled', hrecorded'⟩ := h'
  refine ⟨calls ++ calls', entries ++ entries', ?_, ?_, hrecorded.append hrecorded'⟩
  · rw [hcalls', hcalls, List.append_assoc]
  · rw [hfilled', hfilled, List.append_assoc]

/-! ## Scopes -/

/-- The filler of `scope` is the only one in scope. -/
structure InScope (scope : Option Active) (host : Host (Logged X)) : Prop where
  registered : host.registered = true
  active : ∀ a, scope = some a → host.fill_dirs a.handle = some ⟨some a.function, some a.buffer, true⟩
  others : ∀ r d, host.fill_dirs r = some d → (∀ a, scope = some a → a.handle ≠ r) → d = ⟨none, none, true⟩

theorem InScope.congr {host host' : Host (Logged X)} (h : InScope scope host)
    (hfill_dirs : host'.fill_dirs = host.fill_dirs) (hregistered : host'.registered = host.registered) :
    InScope scope host' :=
  ⟨hregistered.trans h.registered, hfill_dirs ▸ h.active, hfill_dirs ▸ h.others⟩

theorem InScope.cases {host : Host (Logged X)} (h : InScope scope host) {handle : Nat} {d : FillDir}
    (hd : host.fill_dirs handle = some d) :
    (∃ a, scope = some a ∧ a.handle = handle ∧ d = ⟨some a.function, some a.buffer, true⟩) ∨
      ((∀ a, scope = some a → a.handle ≠ handle) ∧ d = ⟨none, none, true⟩) := by
  by_cases hactive : ∃ a, scope = some a ∧ a.handle = handle
  · obtain ⟨a, hscope, rfl⟩ := hactive
    obtain rfl : d = _ := Option.some.inj (hd.symm.trans (h.active a hscope))
    exact Or.inl ⟨a, hscope, rfl, rfl⟩
  · have hother : ∀ a, scope = some a → a.handle ≠ handle := fun a hscope heq => hactive ⟨a, hscope, heq⟩
    exact Or.inr ⟨hother, h.others handle d hd hother⟩

theorem InScope.fill_dir? {host : Host (Logged X)} (h : InScope scope host) {handle : Nat}
    (hd : (host.fill_dirs handle).isSome = true) : host.fill_dir? (some (.userdata handle)) = some handle := by
  obtain ⟨d, hd⟩ := Option.isSome_iff_exists.mp hd
  rcases h.cases hd with ⟨a, -, -, rfl⟩ | ⟨-, rfl⟩ <;> simp [Host.fill_dir?, hd]

theorem InScope.scoped {host : Host (Logged X)} (h : InScope scope host) {handle function buffer : Nat}
    (hscoped : host.Scoped handle function buffer) : scope = some ⟨handle, function, buffer⟩ := by
  obtain ⟨metatable, hd⟩ := hscoped
  rcases h.cases hd with ⟨a, hscope, rfl, heq⟩ | ⟨-, heq⟩
  · cases heq
    exact hscope
  · cases heq

theorem InScope.not_scoped {host : Host (Logged X)} (h : InScope scope host) {handle : Nat}
    (hscoped : ∀ function buffer, ¬ host.Scoped handle function buffer) {a : Active} (ha : scope = some a) :
    a.handle ≠ handle := by
  rintro rfl
  exact hscoped a.function a.buffer ⟨true, h.active a ha⟩

/-- From one state to another, the scope is the same and everything is on record. -/
structure Logs (scope : Option Active) (host host' : Host (Logged X)) : Prop where
  inScope : InScope scope host'
  between : Between scope host host'

theorem Logs.refl {host : Host (Logged X)} (h : InScope scope host) : Logs scope host host := ⟨h, .refl host⟩

theorem Logs.trans {host host₁ host' : Host (Logged X)} (h : Logs scope host host₁) (h' : Logs scope host₁ host') :
    Logs scope host host' := ⟨h'.inScope, h.between.trans h'.between⟩

theorem Logs.step {host host₁ host' : Host (Logged X)} (h : Logs scope host host₁)
    (hfill_dirs : host'.fill_dirs = host₁.fill_dirs) (hregistered : host'.registered = host₁.registered)
    {calls : List Call} {entries : List Entry} (hcalls : host'.calls = host₁.calls ++ calls)
    (hfilled : host'.filled = host₁.filled ++ entries) (hrecorded : Recorded scope calls entries) :
    Logs scope host host' :=
  h.trans ⟨h.inScope.congr hfill_dirs hregistered, calls, entries, hcalls, hfilled, hrecorded⟩

theorem Own.logs {h h' : Heap (Host (Logged X))} (ho : Own h h') (hs : InScope scope h.host) :
    Logs scope h.host h'.host :=
  (Logs.refl hs).step ho.fill_dirs ho.registered (by simp [ho.calls]) (by simp [ho.filled]) .nil

/-! ## What is on record -/

def LookupsLog (scope : Option Active) (I : Interp (Host (Logged X))) : Prop :=
  ∀ o k h, InScope scope h.host → Logs scope h.host (I.lookup o k h).2.host

variable {I J : Interp (Host (Logged X))}

theorem LookupsLog.of_index (h : ∀ o k h, InScope scope h.host → Logs scope h.host (I.index o k h).2.host) :
    LookupsLog scope I := by
  intro o k heap hs
  unfold Interp.lookup
  cases heap.rawget o k with
  | some v => exact .refl hs
  | none => exact h o k heap hs

theorem LookupsLog.keep (hI : LookupsLog scope I) (host : Host (Logged X)) :
    LookupsKeep I fun h => Logs scope host h.host :=
  fun o k h hlog => hlog.trans (hI o k h hlog.inScope)

theorem fill_logs (hJ : LookupsLog scope J) {handle : Nat} (args : List Value) {h : Heap (Host (Logged X))}
    (hfill : (h.host.fill_dirs handle).isSome = true) (hs : InScope scope h.host) :
    Logs scope h.host (fill_logged J filler handle args h).2.host := by
  have hdecoded := (decode_keeps J .whole (hJ.keep h.host) stat_steps (args[1]?.getD .nil)
    ⟨h, zero, []⟩ (.refl hs)).1
  have hcomes := fill_comes J filler args (hs.fill_dir? hfill)
  rcases hx : fill J filler (.userdata handle) args h with ⟨reply, h'⟩
  rw [hx] at hcomes
  simp only [fill_logged, hx]
  cases hcomes with
  | malformed hformed hheap =>
      rw [hformed]
      rcases hheap with rfl | rfl
      · exact (Logs.refl hs).step rfl rfl rfl (List.append_nil _).symm (.malformed .nil)
      · exact hdecoded.step rfl rfl rfl (List.append_nil _).symm (.malformed .nil)
  | out_of_scope hformed hscoped =>
      rw [hformed]
      exact hdecoded.step rfl rfl rfl (List.append_nil _).symm
        (.out_of_scope .nil fun a => hdecoded.inScope.not_scoped hscoped)
  | @passed f function buffer result hformed hscoped =>
      rw [hformed]
      exact hdecoded.step rfl rfl rfl rfl (.passed .nil (hdecoded.inScope.scoped hscoped))

theorem Plays.logs (hJ : LookupsLog scope J) {h h' : Heap (Host (Logged X))} (hp : Plays J filler h h')
    (hs : InScope scope h.host) : Logs scope h.host h'.host := by
  induction hp with
  | own ho => exact ho.logs hs
  | fill args hfill => exact fill_logs hJ args hfill hs
  | trans _ _ ih ih' =>
      have hlog := ih hs
      exact hlog.trans (ih' hlog.inScope)

/-- Whatever confined scripts do is on record. -/
theorem Confined.logs (hI : Confined filler I) :
    (∀ f args h, InScope scope h.host → Logs scope h.host (I.call f args h).2.host) ∧ LookupsLog scope I := by
  induction hI with
  | last hcall hindex =>
      exact ⟨fun f args h hs => (hcall f args h).logs hs, .of_index fun o k h hs => (hindex o k h).logs hs⟩
  | level _ hcall hindex ih =>
      exact ⟨fun f args h hs => (hcall f args h).logs ih.2 hs,
        .of_index fun o k h hs => (hindex o k h).logs ih.2 hs⟩

/-! ## Tables -/

theorem fill_scripted {X : Type} (I : Interp (Host X)) (filler : Filler) (object : Value) (args : List Value)
    (h : Heap (Host X)) : h.Scripted (fill I filler object args h).2 := by
  cases hd : h.host.fill_dir? (some object) with
  | none =>
      rw [fill, hd]
      exact .refl h
  | some r =>
      have hcomes := fill_comes I filler args hd
      have hlookup : LookupsKeep I h.Scripted := fun o key h' hs => hs.trans (I.lookup_scripted o key h')
      have hdecoded := (decode_keeps I .whole hlookup stat_steps (args[1]?.getD .nil) ⟨h, zero, []⟩ (.refl h)).1
      rcases hx : fill I filler object args h with ⟨reply, h'⟩
      rw [hx] at hcomes
      cases hcomes with
      | malformed hformed hheap =>
          rcases hheap with rfl | rfl
          · exact .refl _
          · exact hdecoded
      | out_of_scope hformed hscoped => exact hdecoded
      | passed hformed hscoped => exact ⟨hdecoded.next, hdecoded.unshared⟩

end DromozoaFuse.Fill
