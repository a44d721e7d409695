import DromozoaFuse.Convert.Lemmas.Stackless

/-!
# What a conversion asks and what it makes of the answers

A conversion returns exactly when every answer it gets is acceptable for the key it asked, and then
each member has what the answer for its key stands for.
-/

namespace DromozoaFuse.Convert

open Base Lua DromozoaFuse.Bind

variable {H M : Type} (I : Interp H) {S : Layout}

def answered (w : World H M) (o key : Value) : World H M :=
  { w with
    heap := (I.lookup o key w.heap).2
    trace := w.trace ++ [.read o key (I.lookup o key w.heap).1] }

theorem gettable_exec (o key : Value) (w : World H M) :
    (I.gettable o key).exec w = ((I.lookup o key w.heap).1, answered I w o key) := rfl

theorem opt_integer_field_exec (T : CInt) (o : Value) (key : Bytes) (d : T.Val) (min max : Int)
    (w : World H M) :
    (opt_integer_field I T o key d min max).exec w =
      match (I.lookup o (.string key) w.heap).1 with
      | .error e => (.error e, answered I w o (.string key))
      | .ok v =>
          match field_integer I T d min max v with
          | .ok i => (.ok i, answered I w o (.string key))
          | .error what =>
              (.error (field_message I (answered I w o (.string key)) key what),
                answered I w o (.string key)) := by
  unfold opt_integer_field
  rw [Prog.exec_bind, gettable_exec]
  cases (I.lookup o (.string key) w.heap).1 with
  | error e => rfl
  | ok v =>
      dsimp only
      cases field_integer I T d min max v <;> rfl

/-- An answer that makes a conversion raise: an error of the script, or a value that is not acceptable
for the key. -/
def Refused (acceptable : Bytes → Value → Prop) : Event → Prop
  | .read _ (.string key) (.ok v) => ¬ acceptable key v
  | .read _ _ (.error _) => True
  | _ => False

/-! ## Programs that only ask -/

/-- `x` asks for the given keys, changes nothing of its own, and returns exactly when no answer is
refused. -/
def Asks {α : Type} (x : HostM H M α) (keys : Bytes → Prop) (acceptable : Bytes → Value → Prop) : Prop :=
  ∀ w : World H M, ∃ ev, (x.exec w).2.trace = w.trace ++ ev ∧ (x.exec w).2.mem = w.mem ∧
    (∀ e ∈ ev, ∃ o key reply, e = .read o (.string key) reply ∧ keys key) ∧
    (∀ a, (x.exec w).1 = .ok a → ∀ e ∈ ev, ¬ Refused acceptable e) ∧
    (∀ err, (x.exec w).1 = .error err → ∃ e ∈ ev, Refused acceptable e)

section

variable {α β : Type} {keys : Bytes → Prop} {acceptable : Bytes → Value → Prop}

theorem Asks.pure (a : α) : Asks (pure a : HostM H M α) keys acceptable := by
  intro w
  refine ⟨[], by simp, by simp, by simp, by simp, ?_⟩
  intro err h
  simp at h

theorem Asks.bind {x : HostM H M α} {f : α → HostM H M β} (hx : Asks x keys acceptable)
    (hf : ∀ a, Asks (f a) keys acceptable) : Asks (x >>= f) keys acceptable := by
  intro w
  obtain ⟨ev, htr, hmem, hkeys, hok, herr⟩ := hx w
  rcases hxw : x.exec w with ⟨e | a, w₁⟩
  · rw [hxw] at htr hmem hok herr
    rw [Prog.exec_bind_of_error hxw]
    exact ⟨ev, htr, hmem, hkeys, fun a h => (by cases h), fun err _ => herr e rfl⟩
  · rw [hxw] at htr hmem hok herr
    rw [Prog.exec_bind_of_ok hxw]
    obtain ⟨ev', htr', hmem', hkeys', hok', herr'⟩ := hf a w₁
    refine ⟨ev ++ ev', by rw [htr', htr, List.append_assoc], hmem'.trans hmem, ?_, ?_, ?_⟩
    · intro e he
      rcases List.mem_append.mp he with he | he
      · exact hkeys e he
      · exact hkeys' e he
    · intro b hb e he
      rcases List.mem_append.mp he with he | he
      · exact hok a rfl e he
      · exact hok' b hb e he
    · intro err herr''
      obtain ⟨e, he, hr⟩ := herr' err herr''
      exact ⟨e, List.mem_append_right _ he, hr⟩

theorem Asks.gettable (o : Value) {key : Bytes} (hk : keys key) (hacc : ∀ v, acceptable key v) :
    Asks (I.gettable o (.string key) : HostM H M Value) keys acceptable := by
  intro w
  rw [gettable_exec]
  refine ⟨_, rfl, rfl, ?_, ?_, ?_⟩
  · intro e he
    exact ⟨o, key, _, List.mem_singleton.mp he, hk⟩
  · intro a ha e he
    rw [List.mem_singleton.mp he, ha]
    simpa [Refused] using hacc a
  · intro err herr
    exact ⟨_, List.mem_singleton.mpr rfl, by rw [herr]; trivial⟩

theorem Asks.opt_integer_field (T : CInt) (o : Value) {key : Bytes} (d : T.Val) (min max : Int)
    (hk : keys key)
    (hacc : ∀ v, acceptable key v ↔ ∃ i, field_integer I T d min max v = .ok i) :
    Asks (opt_integer_field I T o key d min max : HostM H M T.Val) keys acceptable := by
  intro w
  have hexec := opt_integer_field_exec I T o key d min max w
  refine ⟨[.read o (.string key) (I.lookup o (.string key) w.heap).1], ?_⟩
  simp only [List.mem_singleton, forall_eq, exists_eq_left]
  cases hv : (I.lookup o (.string key) w.heap).1 with
  | error e =>
      rw [hv] at hexec
      rw [hexec]
      refine ⟨by simp [answered, hv], rfl, ⟨o, key, _, rfl, hk⟩, ?_, fun err _ => trivial⟩
      intro a ha
      cases ha
  | ok v =>
      rw [hv] at hexec
      simp only at hexec
      cases hi : field_integer I T d min max v with
      | ok i =>
          simp only [hi] at hexec
          rw [hexec]
          refine ⟨by simp [answered, hv], rfl, ⟨o, key, _, rfl, hk⟩, ?_, ?_⟩
          · intro a _ hr
            exact hr ((hacc v).mpr ⟨i, hi⟩)
          · intro err herr
            cases herr
      | error what =>
          simp only [hi] at hexec
          rw [hexec]
          refine ⟨by simp [answered, hv], rfl, ⟨o, key, _, rfl, hk⟩, ?_, ?_⟩
          · intro a ha
            cases ha
          · intro err _ hr
            obtain ⟨i, hi'⟩ := (hacc v).mp hr
            rw [hi] at hi'
            cases hi'

end

/-! ## Times -/

/-- What the answers about the fields of a time have to meet. -/
def TimeSpec (acceptable : Bytes → Value → Prop) : Prop :=
  (∀ v, acceptable (bytes "tv_sec") v ↔ ∃ i, field_integer I CInt.time_t (CInt.time_t.wrap 0)
    CInt.time_t.min CInt.time_t.max v = .ok i) ∧
  (∀ v, acceptable (bytes "tv_nsec") v ↔ ∃ i, field_integer I CInt.long (CInt.long.wrap 0)
    0 999999999 v = .ok i)

section

variable {keys : Bytes → Prop} {acceptable : Bytes → Value → Prop} (o : Value)

theorem timespec_key_asks {key : Bytes} (htime : TimeSpec I acceptable) (hk : keys key)
    (hsec : keys (bytes "tv_sec")) (hnsec : keys (bytes "tv_nsec")) (hacc : ∀ v, acceptable key v) :
    Asks (timespec_key I o key : HostM H M _) keys acceptable := by
  refine (Asks.gettable I o hk hacc).bind fun v => ?_
  cases v with
  | table r =>
      exact (Asks.opt_integer_field I _ _ _ _ _ hsec htime.1).bind fun _ =>
        (Asks.opt_integer_field I _ _ _ _ _ hnsec htime.2).bind fun _ => Asks.pure _
  | number n => exact Asks.pure _
  | _ => exact Asks.pure _

theorem timespec_keys_asks (keys : Bytes → Prop) {key1 key2 key3 : Bytes} (htime : TimeSpec I acceptable)
    (h₁ : keys key1) (h₂ : keys key2) (h₃ : keys key3)
    (hsec : keys (bytes "tv_sec")) (hnsec : keys (bytes "tv_nsec"))
    (hacc₁ : ∀ v, acceptable key1 v) (hacc₂ : ∀ v, acceptable key2 v) (hacc₃ : ∀ v, acceptable key3 v) :
    Asks (timespec_keys I o key1 key2 key3 : HostM H M _) keys acceptable := by
  refine (timespec_key_asks I o htime h₁ hsec hnsec hacc₁).bind fun t => ?_
  cases t with
  | some tv => exact Asks.pure _
  | none =>
      refine (timespec_key_asks I o htime h₂ hsec hnsec hacc₂).bind fun t => ?_
      cases t with
      | some tv => exact Asks.pure _
      | none =>
          refine (timespec_key_asks I o htime h₃ hsec hnsec hacc₃).bind fun t => ?_
          cases t <;> exact Asks.pure _

end

/-! ## Conversions -/

def Step.members : Step S → List S.Member
  | .memset => []
  | .OPT_FIELD k => [k]
  | .stream k => [k]
  | .timespec tv _ _ _ => [tv .tv_sec, tv .tv_nsec]

def Step.keys : Step S → List Bytes
  | .memset => []
  | .OPT_FIELD k => [key k]
  | .stream k => [key k]
  | .timespec _ key1 key2 key3 => [bytes key1, bytes key2, bytes key3]

def Step.isMemset : Step S → Bool
  | .memset => true
  | _ => false

/-- What `acceptable` has to say about the keys of a statement that finds `that` in the struct. -/
def Step.Spec (acceptable : Bytes → Value → Prop) (that : Struct S) : Step S → Prop
  | .memset => False
  | .OPT_FIELD k => ∀ v, acceptable (key k) v ↔
      ∃ i, field_integer I (S.type k) (member that k) (S.type k).min (S.type k).max v = .ok i
  | .stream k => ∀ v, acceptable (key k) v
  | .timespec _ key1 key2 key3 => TimeSpec I acceptable ∧
      (∀ v, acceptable (bytes key1) v) ∧ (∀ v, acceptable (bytes key2) v) ∧ ∀ v, acceptable (bytes key3) v

/-- What a statement has made of the answers it got. -/
def Step.Done (o : Value) (ev : List Event) (that that' : Struct S) : Step S → Prop
  | .OPT_FIELD k => (∃ v, Event.read o (.string (key k)) (.ok v) ∈ ev) ∧
      ∀ v, Event.read o (.string (key k)) (.ok v) ∈ ev →
        ∃ i, field_integer I (S.type k) (member that k) (S.type k).min (S.type k).max v = .ok i ∧
          that' k = (S.store k).wrap i.val
  | .stream k => (∃ v, Event.read o (.string (key k)) (.ok v) ∈ ev) ∧
      ∀ v, Event.read o (.string (key k)) (.ok v) ∈ ev → that' k =
        match I.tolstring v with
        | some s => (S.store k).wrap (extract_unsigned (S.type k) s (member that k)).val
        | none => that k
  | _ => True

/-- A part of a conversion that made `r` and `w'` of `w`: what it asked, what it changed, and that it
returned exactly when no answer was refused. -/
def Audited (p : Ptr M (Struct S)) (ms : List S.Member) (keys : List Bytes)
    (acceptable : Bytes → Value → Prop) (done : List Event → Struct S → Prop) (w : World H M)
    (r : Except Value Unit) (w' : World H M) : Prop :=
  ∃ ev that', w'.trace = w.trace ++ ev ∧ w'.mem = p.set w.mem that' ∧
    (∀ k, k ∉ ms → that' k = p.get w.mem k) ∧
    (∀ e ∈ ev, ∃ o key reply, e = .read o (.string key) reply ∧
      (key ∈ keys ∨ key = bytes "tv_sec" ∨ key = bytes "tv_nsec")) ∧
    (r = .ok () → (∀ e ∈ ev, ¬ Refused acceptable e) ∧ done ev that') ∧
    (∀ err, r = .error err → ∃ e ∈ ev, Refused acceptable e)

variable (p : Ptr M (Struct S))

@[simp] theorem write_exec (f : Struct S → Struct S) (w : World H M) :
    (write p f).exec w = (.ok (), { w with mem := p.set w.mem (f (p.get w.mem)) }) := rfl

@[simp] theorem read_exec (w : World H M) : (read p).exec w = (.ok (p.get w.mem), w) := rfl

theorem OPT_FIELD_exec (o : Value) (k : S.Member) (w : World H M) :
    ((Step.OPT_FIELD k).exec I p o).exec w =
      match (opt_integer_field I (S.type k) o (key k) (member (p.get w.mem) k) (S.type k).min
        (S.type k).max).exec w with
      | (.ok i, w₁) => (.ok (), { w₁ with mem := p.set w₁.mem (assign (p.get w₁.mem) k i.val) })
      | (.error e, w₁) => (.error e, w₁) := by
  simp only [Step.exec]
  rw [Prog.exec_bind_of_ok (read_exec p w), Prog.exec_bind]
  rcases (opt_integer_field I (S.type k) o (key k) (member (p.get w.mem) k) (S.type k).min
    (S.type k).max).exec w with ⟨e | i, w₁⟩ <;> rfl

/-- One answer, which is refused. -/
theorem Audited.of_refused {ms : List S.Member} {keys : List Bytes} {acceptable : Bytes → Value → Prop}
    {done : List Event → Struct S → Prop} {w : World H M} {o : Value} {key : Bytes} {reply : Except Value Value}
    {e : Value} (hreply : (I.lookup o (.string key) w.heap).1 = reply) (hkey : key ∈ keys)
    (href : Refused acceptable (.read o (.string key) reply)) :
    Audited p ms keys acceptable done w (.error e) (answered I w o (.string key)) := by
  refine ⟨[.read o (.string key) reply], p.get w.mem, ?_, ?_, fun _ _ => rfl, ?_, ?_, ?_⟩
  · simp [answered, hreply]
  · simp [answered]
  · simp [hkey]
  · intro h
    cases h
  · intro err _
    exact ⟨_, List.mem_singleton.mpr rfl, href⟩

/-- One answer, which is accepted and makes `that'` of the struct. -/
theorem Audited.of_accepted {ms : List S.Member} {keys : List Bytes} {acceptable : Bytes → Value → Prop}
    {done : List Event → Struct S → Prop} {w : World H M} {o : Value} {key : Bytes} {v : Value}
    {that' : Struct S} (hv : (I.lookup o (.string key) w.heap).1 = .ok v) (hkey : key ∈ keys)
    (hacc : acceptable key v) (hframe : ∀ k, k ∉ ms → that' k = p.get w.mem k)
    (hdone : done [.read o (.string key) (.ok v)] that') :
    Audited p ms keys acceptable done w (.ok ())
      { answered I w o (.string key) with mem := p.set w.mem that' } := by
  refine ⟨[.read o (.string key) (.ok v)], that', ?_, rfl, hframe, ?_, fun _ => ⟨?_, hdone⟩, ?_⟩
  · simp [answered, hv]
  · simp [hkey]
  · intro e he
    rw [List.mem_singleton.mp he]
    exact fun hr => hr hacc
  · intro err h
    cases h

theorem OPT_FIELD_audited {acceptable : Bytes → Value → Prop} {o : Value} {k : S.Member} (w : World H M)
    (hspec : (Step.OPT_FIELD k).Spec I acceptable (p.get w.mem)) :
    Audited p [k] [key k] acceptable (fun ev that' => (Step.OPT_FIELD k).Done I o ev (p.get w.mem) that') w
      (((Step.OPT_FIELD k).exec I p o).exec w).1 (((Step.OPT_FIELD k).exec I p o).exec w).2 := by
  have hexec := OPT_FIELD_exec I p o k w
  rw [opt_integer_field_exec] at hexec
  cases hv : (I.lookup o (.string (key k)) w.heap).1 with
  | error e =>
      simp only [hv] at hexec
      rw [hexec]
      exact .of_refused I p hv (by simp) trivial
  | ok v =>
      simp only [hv] at hexec
      cases hi : field_integer I (S.type k) (member (p.get w.mem) k) (S.type k).min (S.type k).max v with
      | error what =>
          simp only [hi] at hexec
          rw [hexec]
          refine .of_refused I p hv (by simp) fun hacc => ?_
          obtain ⟨i, hi'⟩ := (hspec v).mp hacc
          rw [hi] at hi'
          cases hi'
      | ok i =>
          simp only [hi] at hexec
          rw [hexec]
          refine .of_accepted I p hv (by simp) ((hspec v).mpr ⟨i, hi⟩) (fun j hj => ?_) ?_
          · exact assign_of_ne _ (by simpa using hj) _
          · refine ⟨⟨v, by simp⟩, fun v' hv' => ?_⟩
            obtain rfl : v' = v := by simpa using hv'
            exact ⟨i, hi, assign_self ..⟩

theorem stream_exec (o : Value) (k : S.Member) (w : World H M) :
    ((Step.stream k).exec I p o).exec w =
      match (I.lookup o (.string (key k)) w.heap).1 with
      | .ok v =>
          match I.tolstring v with
          | some s => (.ok (), { answered I w o (.string (key k)) with
              mem := p.set w.mem (assign (p.get w.mem) k
                (extract_unsigned (S.type k) s (member (p.get w.mem) k)).val) })
          | none => (.ok (), answered I w o (.string (key k)))
      | .error e => (.error e, answered I w o (.string (key k))) := by
  simp only [Step.exec]
  rw [Prog.exec_bind, gettable_exec]
  cases (I.lookup o (.string (key k)) w.heap).1 with
  | error e => rfl
  | ok v =>
      dsimp only
      cases I.tolstring v <;> rfl

theorem stream_audited {acceptable : Bytes → Value → Prop} {o : Value} {k : S.Member} (w : World H M)
    (hspec : (Step.stream k).Spec I acceptable (p.get w.mem)) :
    Audited p [k] [key k] acceptable (fun ev that' => (Step.stream k).Done I o ev (p.get w.mem) that') w
      (((Step.stream k).exec I p o).exec w).1 (((Step.stream k).exec I p o).exec w).2 := by
  have hexec := stream_exec I p o k w
  cases hv : (I.lookup o (.string (key k)) w.heap).1 with
  | error e =>
      simp only [hv] at hexec
      rw [hexec]
      exact .of_refused I p hv (by simp) trivial
  | ok v =>
      simp only [hv] at hexec
      cases hs : I.tolstring v with
      | some s =>
          simp only [hs] at hexec
          rw [hexec]
          refine .of_accepted I p hv (by simp) (hspec v) (fun j hj => ?_) ?_
          · exact assign_of_ne _ (by simpa using hj) _
          · refine ⟨⟨v, by simp⟩, fun v' hv' => ?_⟩
            obtain rfl : v' = v := by simpa using hv'
            simp [hs]
      | none =>
          simp only [hs] at hexec
          rw [hexec]
          have hsame : answered I w o (.string (key k)) =
              { answered I w o (.string (key k)) with mem := p.set w.mem (p.get w.mem) } := by
            simp [answered]
          rw [hsame]
          refine .of_accepted I p hv (by simp) (hspec v) (fun _ _ => rfl) ⟨⟨v, by simp⟩, fun v' hv' => ?_⟩
          obtain rfl : v' = v := by simpa using hv'
          simp [hs]

theorem timespec_audited {acceptable : Bytes → Value → Prop} {o : Value} {tv : timespec_member → S.Member}
    {key1 key2 key3 : String} (w : World H M)
    (hspec : (Step.timespec tv key1 key2 key3).Spec I acceptable (p.get w.mem)) :
    Audited p (Step.timespec tv key1 key2 key3).members (Step.timespec tv key1 key2 key3).keys acceptable
      (fun ev that' => (Step.timespec tv key1 key2 key3).Done I o ev (p.get w.mem) that') w
      (((Step.timespec tv key1 key2 key3).exec I p o).exec w).1
      (((Step.timespec tv key1 key2 key3).exec I p o).exec w).2 := by
  obtain ⟨htime, h₁, h₂, h₃⟩ := hspec
  have hasks := timespec_keys_asks (H := H) (M := M) I o
    (fun k => k ∈ [bytes key1, bytes key2, bytes key3] ∨ k = bytes "tv_sec" ∨ k = bytes "tv_nsec") htime
    (Or.inl (by simp)) (Or.inl (by simp)) (Or.inl (by simp)) (Or.inr (Or.inl rfl))
    (Or.inr (Or.inr rfl)) h₁ h₂ h₃ w
  obtain ⟨ev, htr, hmem, hkeys, hok, herr⟩ := hasks
  simp only [Step.exec]
  rw [Prog.exec_bind]
  rcases hx : (timespec_keys I o (bytes key1) (bytes key2) (bytes key3)).exec w with ⟨e | t, w₁⟩
  · rw [hx] at htr hmem hok herr
    refine ⟨ev, p.get w.mem, htr, ?_, fun _ _ => rfl, hkeys, ?_, fun err _ => herr e rfl⟩
    · simpa using hmem
    · intro h
      cases h
  · rw [hx] at htr hmem hok herr
    simp only at htr hmem
    refine ⟨ev, assign (assign (p.get w.mem) (tv .tv_sec) (t .tv_sec).val) (tv .tv_nsec) (t .tv_nsec).val,
      htr, ?_, ?_, hkeys, ?_, ?_⟩
    · simp [hmem]
    · intro k hk
      simp only [Step.members, List.mem_cons, List.not_mem_nil, or_false, not_or] at hk
      rw [assign_of_ne _ hk.2, assign_of_ne _ hk.1]
    · intro _
      exact ⟨hok t rfl, trivial⟩
    · intro err h
      cases h

theorem Step.exec_audited {acceptable : Bytes → Value → Prop} {o : Value} {step : Step S} (w : World H M)
    (hspec : step.Spec I acceptable (p.get w.mem)) :
    Audited p step.members step.keys acceptable (fun ev that' => step.Done I o ev (p.get w.mem) that') w
      ((step.exec I p o).exec w).1 ((step.exec I p o).exec w).2 := by
  cases step with
  | memset => exact hspec.elim
  | OPT_FIELD k => exact OPT_FIELD_audited I p w hspec
  | stream k => exact stream_audited I p w hspec
  | timespec tv key1 key2 key3 => exact timespec_audited I p w hspec

theorem member_congr {that that₁ : Struct S} {k : S.Member} (h : that₁ k = that k) :
    member that₁ k = member that k := by
  simp only [member, h]

theorem Step.Spec.congr {acceptable : Bytes → Value → Prop} {that that₁ : Struct S} {step : Step S}
    (h : ∀ k ∈ step.members, that₁ k = that k) (hs : step.Spec I acceptable that) :
    step.Spec I acceptable that₁ := by
  cases step with
  | memset => exact hs
  | OPT_FIELD k => simpa only [Step.Spec, member_congr (h k (by simp [members]))] using hs
  | stream k => exact hs
  | timespec tv key1 key2 key3 => exact hs

/-- `Done` only depends on the members a statement assigns and on the answers for its keys. -/
theorem Step.Done.congr {o : Value} {ev ev₁ : List Event} {that that₁ that' that₁' : Struct S} {step : Step S}
    (h : ∀ k ∈ step.members, that₁ k = that k) (h' : ∀ k ∈ step.members, that₁' k = that' k)
    (hev : ∀ key ∈ step.keys, ∀ v, Event.read o (.string key) (.ok v) ∈ ev₁ ↔
      Event.read o (.string key) (.ok v) ∈ ev)
    (hd : step.Done I o ev that that') : step.Done I o ev₁ that₁ that₁' := by
  cases step with
  | memset => trivial
  | OPT_FIELD k =>
      have hk := h k (by simp [members])
      simpa only [Done, member_congr hk, h' k (by simp [members]), hev (key k) (by simp [keys])] using hd
  | stream k =>
      have hk := h k (by simp [members])
      simpa only [Done, member_congr hk, hk, h' k (by simp [members]), hev (key k) (by simp [keys])] using hd
  | timespec tv key1 key2 key3 => trivial

/-- What was not asked for has no answer. -/
theorem not_read {keys : List Bytes} {ev : List Event}
    (h : ∀ e ∈ ev, ∃ o key reply, e = .read o (.string key) reply ∧
      (key ∈ keys ∨ key = bytes "tv_sec" ∨ key = bytes "tv_nsec"))
    {key : Bytes} (hkey : key ∉ keys) (hsec : key ≠ bytes "tv_sec") (hnsec : key ≠ bytes "tv_nsec")
    (o v : Value) : Event.read o (.string key) (.ok v) ∉ ev := by
  intro he
  obtain ⟨o', key', reply, heq, hin⟩ := h _ he
  simp only [Event.read.injEq, Value.string.injEq] at heq
  obtain ⟨-, rfl, -⟩ := heq
  rcases hin with hin | hin | hin
  · exact hkey hin
  · exact hsec hin
  · exact hnsec hin

/-- A part that raised an error is all there is. -/
theorem Audited.raised {ms ms' : List S.Member} {keys keys' : List Bytes} {acceptable : Bytes → Value → Prop}
    {done done' : List Event → Struct S → Prop} {w w' : World H M} {e : Value}
    (h : Audited p ms keys acceptable done w (.error e) w') (hms : ms ⊆ ms') (hkeys : keys ⊆ keys') :
    Audited p ms' keys' acceptable done' w (.error e) w' := by
  obtain ⟨ev, that', htr, hmem, hframe, hk, -, herr⟩ := h
  refine ⟨ev, that', htr, hmem, fun k hk' => hframe k fun hin => hk' (hms hin), ?_, ?_, herr⟩
  · intro e he
    obtain ⟨o, key, reply, rfl, hkey⟩ := hk e he
    exact ⟨o, key, reply, rfl, hkey.imp_left fun hin => hkeys hin⟩
  · intro h
    cases h

theorem steps_audited {acceptable : Bytes → Value → Prop} {o : Value} (steps : List (Step S))
    (w : World H M) (hspec : ∀ s ∈ steps, s.Spec I acceptable (p.get w.mem))
    (hmembers : (steps.flatMap Step.members).Nodup) (hkeys : (steps.flatMap Step.keys).Nodup)
    (hsec : bytes "tv_sec" ∉ steps.flatMap Step.keys) (hnsec : bytes "tv_nsec" ∉ steps.flatMap Step.keys) :
    Audited p (steps.flatMap Step.members) (steps.flatMap Step.keys) acceptable
      (fun ev that' => ∀ s ∈ steps, s.Done I o ev (p.get w.mem) that') w
      ((steps.forM (Step.exec I p o)).exec w).1 ((steps.forM (Step.exec I p o)).exec w).2 := by
  induction steps generalizing w with
  | nil => exact ⟨[], p.get w.mem, by simp, by simp, by simp, by simp, by simp, by simp⟩
  | cons s rest ih =>
      simp only [List.flatMap_cons, List.nodup_append, List.mem_append, not_or] at hmembers hkeys hsec hnsec
      obtain ⟨-, hmembers', hdisj⟩ := hmembers
      obtain ⟨-, hkeys', hkdisj⟩ := hkeys
      have hfirst := Step.exec_audited I p (o := o) w (hspec s (by simp))
      have hsplit : ((s :: rest).forM (Step.exec I p o) : HostM H M Unit) =
          (do s.exec I p o; rest.forM (Step.exec I p o)) := rfl
      rw [hsplit, Prog.exec_bind]
      rcases hx : (s.exec I p o).exec w with ⟨e | ⟨⟩, w₁⟩
      · rw [hx] at hfirst
        exact hfirst.raised p (List.subset_append_left _ _) (List.subset_append_left _ _)
      · rw [hx] at hfirst
        obtain ⟨ev₁, that₁, htr₁, hmem₁, hframe₁, hk₁, hok₁, -⟩ := hfirst
        simp only at htr₁ hmem₁
        obtain ⟨hnot₁, hdone₁⟩ := hok₁ rfl
        have hget : p.get w₁.mem = that₁ := by rw [hmem₁, p.get_set]
        have hagree : ∀ t ∈ rest, ∀ k ∈ t.members, p.get w₁.mem k = p.get w.mem k := by
          intro t ht k hk
          rw [hget]
          exact hframe₁ k fun hs => hdisj k hs k (List.mem_flatMap.mpr ⟨t, ht, hk⟩) rfl
        obtain ⟨ev₂, that₂, htr₂, hmem₂, hframe₂, hk₂, hok₂, herr₂⟩ :=
          ih w₁ (fun t ht => (hspec t (List.mem_cons_of_mem _ ht)).congr I (hagree t ht)) hmembers' hkeys'
            hsec.2 hnsec.2
        refine ⟨ev₁ ++ ev₂, that₂, by rw [htr₂, htr₁, List.append_assoc], ?_, ?_, ?_, ?_, ?_⟩
        · rw [hmem₂, hmem₁, p.set_set]
        · intro k hk
          simp only [List.flatMap_cons, List.mem_append, not_or] at hk
          rw [hframe₂ k hk.2, hget, hframe₁ k hk.1]
        · intro e he
          rcases List.mem_append.mp he with he | he
          · obtain ⟨o', key, reply, rfl, hkey⟩ := hk₁ e he
            exact ⟨o', key, reply, rfl, hkey.imp_left fun h => by simp [h]⟩
          · obtain ⟨o', key, reply, rfl, hkey⟩ := hk₂ e he
            exact ⟨o', key, reply, rfl, hkey.imp_left fun h => by simp [h]⟩
        · intro h
          obtain ⟨hnot₂, hdone₂⟩ := hok₂ h
          -- no answer for a key of one part is among the events of the other part
          have hother₂ : ∀ key ∈ s.keys, ∀ v, Event.read o (.string key) (.ok v) ∉ ev₂ := fun key hkey =>
            not_read hk₂ (fun hin => hkdisj key hkey key hin rfl) (fun heq => hsec.1 (heq ▸ hkey))
              (fun heq => hnsec.1 (heq ▸ hkey)) o
          have hother₁ : ∀ t ∈ rest, ∀ key ∈ t.keys, ∀ v, Event.read o (.string key) (.ok v) ∉ ev₁ := by
            intro t ht key hkey
            have hrest : key ∈ rest.flatMap Step.keys := List.mem_flatMap.mpr ⟨t, ht, hkey⟩
            exact not_read hk₁ (fun hin => hkdisj key hin key hrest rfl) (fun heq => hsec.2 (heq ▸ hrest))
              (fun heq => hnsec.2 (heq ▸ hrest)) o
          refine ⟨?_, ?_⟩
          · intro e he
            rcases List.mem_append.mp he with he | he
            · exact hnot₁ e he
            · exact hnot₂ e he
          · intro t ht
            rcases List.mem_cons.mp ht with rfl | ht
            · refine hdone₁.congr I (fun _ _ => rfl) (fun k hk => ?_) (fun key hkey v => ?_)
              · rw [hframe₂ k fun hr => hdisj k hk k hr rfl, hget]
              · simp [hother₂ key hkey v]
            · refine (hdone₂ t ht).congr I (fun k hk => (hagree t ht k hk).symm) (fun _ _ => rfl)
                (fun key hkey v => ?_)
              simp [hother₁ t ht key hkey v]
        · intro err h
          obtain ⟨e, he, hr⟩ := herr₂ err h
          exact ⟨e, List.mem_append_right _ he, hr⟩

/-! ## The answers that a list of statements accepts -/

/-- What a conversion with these statements accepts for a key, where it finds `that` in the struct. -/
def acceptable (steps : List (Step S)) (that : Struct S) (key : Bytes) (v : Value) : Prop :=
  (∀ k, Step.OPT_FIELD k ∈ steps → key = Convert.key k →
    ∃ i, field_integer I (S.type k) (member that k) (S.type k).min (S.type k).max v = .ok i) ∧
  (key = bytes "tv_sec" → ∃ i, field_integer I CInt.time_t (CInt.time_t.wrap 0) CInt.time_t.min
    CInt.time_t.max v = .ok i) ∧
  (key = bytes "tv_nsec" → ∃ i, field_integer I CInt.long (CInt.long.wrap 0) 0 999999999 v = .ok i)

theorem keys_inj {steps : List (Step S)} (h : (steps.flatMap Step.keys).Nodup) {s t : Step S}
    (hs : s ∈ steps) (ht : t ∈ steps) {key : Bytes} (hks : key ∈ s.keys) (hkt : key ∈ t.keys) : s = t := by
  by_contra hne
  have hpair := (List.nodup_flatMap.mp h).2
  have hsymm : Std.Symm (Function.onFun List.Disjoint (Step.keys (S := S))) :=
    ⟨fun _ _ hab => hab.symm⟩
  exact hpair.forall hs ht hne hks hkt

theorem acceptable_spec {steps : List (Step S)} (that : Struct S) (hmemset : .memset ∉ steps)
    (hkeys : (steps.flatMap Step.keys).Nodup)
    (hsec : bytes "tv_sec" ∉ steps.flatMap Step.keys) (hnsec : bytes "tv_nsec" ∉ steps.flatMap Step.keys) :
    ∀ s ∈ steps, s.Spec I (acceptable I steps that) that := by
  have hneq : bytes "tv_sec" ≠ bytes "tv_nsec" := by decide
  have hmem : ∀ {s : Step S} {key : Bytes}, s ∈ steps → key ∈ s.keys → key ∈ steps.flatMap Step.keys :=
    fun hs hk => List.mem_flatMap.mpr ⟨_, hs, hk⟩
  have hfree : ∀ {s : Step S} {key : Bytes}, s ∈ steps → key ∈ s.keys →
      (∀ k, s ≠ .OPT_FIELD k) → ∀ v, acceptable I steps that key v := by
    intro s key hs hk hno v
    refine ⟨?_, ?_, ?_⟩
    · rintro k hopt rfl
      exact absurd (keys_inj hkeys hs hopt hk (by simp [Step.keys])) (hno k)
    · rintro rfl
      exact absurd (hmem hs hk) hsec
    · rintro rfl
      exact absurd (hmem hs hk) hnsec
  intro s hs
  cases s with
  | memset => exact hmemset hs
  | OPT_FIELD k =>
      intro v
      constructor
      · intro h
        exact h.1 k hs rfl
      · intro h
        refine ⟨?_, ?_, ?_⟩
        · intro j hj hkey
          have hkk : key k ∈ (Step.OPT_FIELD k).keys := by simp [Step.keys]
          have heq := keys_inj hkeys hs hj hkk (by simp [Step.keys, hkey])
          cases heq
          exact h
        · intro hkey
          exact absurd (hmem hs (by simp [Step.keys, hkey])) hsec
        · intro hkey
          exact absurd (hmem hs (by simp [Step.keys, hkey])) hnsec
  | stream k => exact hfree hs (by simp [Step.keys]) (by simp)
  | timespec tv key1 key2 key3 =>
      refine ⟨⟨?_, ?_⟩, hfree hs (by simp [Step.keys]) (by simp), hfree hs (by simp [Step.keys]) (by simp),
        hfree hs (by simp [Step.keys]) (by simp)⟩
      · intro v
        refine ⟨fun h => h.2.1 rfl, fun h => ⟨?_, fun _ => h, fun hk => absurd hk hneq⟩⟩
        intro k hk hkey
        exact absurd (hkey ▸ hmem hk (by simp [Step.keys])) hsec
      · intro v
        refine ⟨fun h => h.2.2 rfl, fun h => ⟨?_, fun hk => absurd hk.symm hneq, fun _ => h⟩⟩
        intro k hk hkey
        exact absurd (hkey ▸ hmem hk (by simp [Step.keys])) hnsec

end DromozoaFuse.Convert
