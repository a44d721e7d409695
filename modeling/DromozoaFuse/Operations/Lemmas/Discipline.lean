import DromozoaFuse.Operations.Lemmas.Dispatch

/-!
# The events of a callback that returns

The state handed out and back, the converters, and the protected call between them.
-/

namespace DromozoaFuse.Operations

open Base Lua DromozoaFuse.Bind DromozoaFuse.Convert Fill

variable {X : Type} (I : Interp (Host X))

/-! ## Converters as slots -/

def slots : Tables → Nat → List (Int × Nat)
  | [], _ => []
  | (_, r) :: tables, height => ((height + 1 : Int), r) :: slots tables (height + 1)

def constructed_at (s : Int × Nat) : Event := .constructed s.1 (some (.table s.2))

def destructed_at (s : Int × Nat) : Event := .destructed s.1 (some (.table s.2))

theorem constructed_events_eq (tables : Tables) (height : Nat) :
    constructed_events tables height = (slots tables height).map constructed_at := by
  induction tables generalizing height with
  | nil => rfl
  | cons p tables ih => simp [constructed_events, slots, constructed_at, ih]

theorem destructed_events_eq (tables : Tables) (height : Nat) :
    destructed_events tables height = (slots tables height).reverse.map destructed_at := by
  induction tables generalizing height with
  | nil => rfl
  | cons p tables ih => simp [destructed_events, slots, destructed_at, ih]

theorem slots_index (tables : Tables) (height : Nat) : ∀ s ∈ slots tables height, (height : Int) < s.1 := by
  induction tables generalizing height with
  | nil => simp [slots]
  | cons p tables ih =>
      intro s hs
      rcases List.mem_cons.mp hs with rfl | hs
      · simp
      · have hlt := ih (height + 1) s hs
        push_cast at hlt
        omega

theorem slots_nodup (tables : Tables) (height : Nat) : ((slots tables height).map Prod.fst).Nodup := by
  induction tables generalizing height with
  | nil => exact List.nodup_nil
  | cons p tables ih =>
      refine List.nodup_cons.mpr ⟨fun h => ?_, ih (height + 1)⟩
      obtain ⟨s, hs, heq⟩ := List.mem_map.mp h
      have hlt := slots_index tables (height + 1) s hs
      dsimp only at heq
      push_cast at hlt
      omega

/-! ## Whole callbacks -/

/-- What is recorded besides the answers of scripts. -/
def points (ev : List Event) : List Event := ev.filter (!·.isRead)

/-- A converter's argument is the table that it has made. -/
def Arg.Carries (tables : Tables) : Arg → Value → Prop
  | .pushvalue c, v => ∃ r, (c, r) ∈ tables ∧ v = .table r
  | _, _ => True

/-- Between its converters a callback looks its handler up. If there is one, it is called once, with the operations
value and the arguments in their places, and then only asked for what its reply has. -/
inductive Callback.Between (c : Callback) (ops : Value) (tables : Tables) : List Event → Prop
  | missing : c.Between ops tables [.read ops (.string (bytes c.name)) (.ok .nil)]
  | called {f vs reply reads} : f ≠ .nil → List.Forall₂ (Arg.Carries tables) c.args vs →
      (∀ e ∈ reads, e.isRead = true) →
      c.Between ops tables (.read ops (.string (bytes c.name)) (.ok f) :: .pcall f (ops :: vs) reply :: reads)

/-- One state is handed out and the same one back, each time with nothing but the operations value on its
stack. In between, the converters of the callback make their tables in their order, each at an index of its own. Then
they go in the reverse order, and each index has still got its table. -/
def Callback.Disciplined (c : Callback) (ops : Value) (ev : List Event) : Prop :=
  ∃ tables between destructed, tables.map Prod.fst = c.converters ∧
    ev = .opened [ops] :: (slots tables 1).map constructed_at ++ between ++ destructed ++ [.closed [ops]] ∧
    ((slots tables 1).map Prod.fst).Nodup ∧ c.Between ops tables between ∧
    points destructed = (slots tables 1).reverse.map destructed_at

variable {I} in
theorem Callback.Ends.between {c : Callback} (hpushed : ∀ d, .pushvalue d ∈ c.args → d ∈ c.converters) {ops : Value}
    {tables : Tables} (hfst : tables.map Prod.fst = c.converters) {w w' : World (Host X) Memory} {a : Returned}
    (h : c.Ends I ops tables w (.ok a, w')) : ∃ mid, w'.trace = w.trace ++ mid ∧ c.Between ops tables mid := by
  have hlookup : (c.looked_up I ops w).trace =
      w.trace ++ [.read ops (.string (bytes c.name)) (c.handler I ops w.heap)] := rfl
  generalize hout : (Except.ok a : Except Value Returned) = out at h
  cases h with
  | raised h => cases hout
  | missing h =>
      rw [h] at hlookup
      exact ⟨_, hlookup, .missing⟩
  | @called f vs hs heap h hf hgrown hargs hhandles _ out w₁ hanswer =>
      rw [h] at hlookup
      obtain ⟨reads, htr, hreads, -⟩ := c.finish.answer_judges I
        (reply_of I f (ops :: vs) { c.looked_up I ops w with heap })
        (Operations.called I f (ops :: vs) { c.looked_up I ops w with heap })
      rw [hanswer] at htr
      refine ⟨.read ops (.string (bytes c.name)) (.ok f) ::
        .pcall f (ops :: vs) (reply_of I f (ops :: vs) { c.looked_up I ops w with heap }) :: reads, ?_,
        .called hf ?_ hreads⟩
      · rw [ended_trace, htr]
        simp [Operations.called, reply_of, hlookup]
      · have hcarried : List.Forall₂ (fun arg v => arg ∈ c.args ∧ Arg.Denotes tables heap arg v) c.args vs :=
          (List.forall₂_and_left ..).mpr ⟨fun _ harg => harg, hargs⟩
        apply hcarried.imp
        rintro arg v ⟨harg, hd⟩
        cases arg with
        | pushvalue d =>
            obtain ⟨r, hr, hvalue⟩ := Tables.value_of_mem (by rw [hfst]; exact hpushed d harg)
            exact ⟨r, hr, hd.trans hvalue⟩
        | _ => trivial

theorem callback_disciplined (inv : Invocation) (ops : Value) {w w' : World (Host X) Memory}
    {r : Returned × List Value} (h : ((callback I inv.callback).run [ops]).exec w = (.ok r, w')) :
    r.2 = [ops] ∧ inv.callback.Disciplined ops (recorded w w') := by
  have hplays := inv.callback.scope_plays I inv.converters_nodup ops 1 (opened [ops] w)
  rw [callback_exec I inv.callback_counted] at h
  change finished [ops] ((inv.callback.scope I 1 ops).exec (opened [ops] w)) = _ at h
  generalize (inv.callback.scope I 1 ops).exec (opened [ops] w) = result at h hplays
  cases hplays with
  | escaped _ _ _ _ => cases h
  | @left tables a w₁ ev out w₂ hfst hgrown hencodes hends hdestruct hdestructs =>
      cases out with
      | error e => cases h
      | ok u =>
          obtain ⟨mid, hmid, hbetween⟩ :=
            hends.between (fun d => (inv.mem_converters_iff d).mpr) hfst
          simp only [Except.map, finished, Prod.mk.injEq, Except.ok.injEq] at h
          obtain ⟨rfl, rfl⟩ := h
          refine ⟨rfl, tables, mid, ev, hfst, ?_, slots_nodup tables 1, hbetween, ?_⟩
          · rw [← constructed_events_eq]
            exact recorded_eq (by simp [hdestructs.trace, hmid, Callback.prepared, opened])
          · rw [← destructed_events_eq]
            exact hdestructs.points u rfl

/-- The constructor has no converters and calls nobody. It looks up one handler after the other. -/
theorem operations_disciplined (ops : Value) {w w' : World (Host X) Memory} {r : Slots × List Value}
    (h : ((operations I).run [ops]).exec w = (.ok r, w')) :
    r.2 = [ops] ∧ ∃ answers,
      recorded w w' = .opened [ops] :: considered.map (considered_event ops answers) ++ [.closed [ops]] := by
  rw [operations_run, Prog.exec_map, Prog.exec_bind_of_ok (exec_record _ _)] at h
  rcases considering_exec I (by decide : considered.Nodup) ops unconditional
    { w with trace := w.trace ++ [.opened [ops]] } with
    ⟨answers, slots', heap, hexec, -⟩ | ⟨e, w', ev, n, hexec, -⟩
  · rw [Prog.exec_bind_of_ok hexec, Prog.exec_bind_of_ok (exec_record _ _)] at h
    simp only [Prog.exec_pure, Except.map, Prod.mk.injEq, Except.ok.injEq] at h
    obtain ⟨rfl, rfl⟩ := h
    exact ⟨rfl, answers, recorded_eq (by simp)⟩
  · rw [Prog.exec_bind_of_error hexec] at h
    cases h

end DromozoaFuse.Operations
