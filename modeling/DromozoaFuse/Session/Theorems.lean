import DromozoaFuse.Session.Lemmas.Kept

/-! # Stack discipline across sessions -/

namespace DromozoaFuse.Session

open Base Lua Operations Fill

theorem kept_reachable {T : Type} [DecidableEq T] {M : StateManager T} {X : Type} (I : Interp (Host X))
    {roots : Nat → Value} {heaps : Nat → Heap (Host X)} {c : Config M X}
    (h : Reachable (step I) (Config.init M roots heaps) c) (t : T) : ∃ stage, Kept roots (c.log t) stage :=
  ((h.invariant (sessionInv_init roots heaps) (sessionInv_step I)).log t).kept

/-- With either manager and in every interleaving, each thread has run whole callbacks one after the other,
on states whose stack has nothing but their operations value, and is somewhere in the next one. -/
theorem stack_discipline {T : Type} [DecidableEq T] [Fintype T] {X : Type} (I : Interp (Host X))
    (roots : Nat → Value) (heaps : Nat → Heap (Host X)) :
    (∀ state c, Reachable (step I) (Config.init (state_manager_main T state) roots heaps) c →
      ∀ t, ∃ stage, Kept roots (c.log t) stage) ∧
    ∀ p c, Reachable (step I) (Config.init (state_manager_pool T p) roots heaps) c →
      ∀ t, ∃ stage, Kept roots (c.log t) stage :=
  ⟨fun _ _ h => kept_reachable I h, fun _ _ h => kept_reachable I h⟩

def destroyable : Heap (Host Unit) :=
  ⟨fun _ => ⟨fun k => if k = bytes "destroy" then .function 1 else .nil, false, true⟩, 1,
    ⟨fun _ => none, true, [], ()⟩⟩

def lockable : Heap (Host Unit) :=
  ⟨fun _ => ⟨fun k => if k = bytes "lock" ∨ k = bytes "destroy" then .function 1 else .nil, false, true⟩, 1,
    ⟨fun _ => none, true, [], ()⟩⟩

def one_idle : Manager.PoolParams :=
  ⟨0, 1, 1, Nat.two_pow_pos 64, Nat.one_lt_two_pow (Nat.succ_ne_zero 63), Nat.one_lt_two_pow (Nat.succ_ne_zero 63)⟩

/-- The state that a thread has got, with its stack. -/
def Note.handed : Note → Option (Nat × Option (List Value))
  | .opened s stack => some (s, stack)
  | _ => none

/-- One thread runs `lock`, with the tables of both of its structs, and then `destroy`, on the one state, or on one that
the pool constructs for it and hands out again. -/
theorem stack_discipline_lock :
    (∃ c, Reachable (step (.constant (.ok .nil)))
        (Config.init (state_manager_main (Fin 1) 0) (fun _ => .table 0) fun _ => lockable) c ∧
      (c.log 0).length = 8 ∧
      (c.log 0).filterMap Note.handed = [(0, some [.table 0]), (0, some [.table 0])] ∧
      ∃ stage, Kept (fun _ => .table 0) (c.log 0) stage) ∧
    ∃ c, Reachable (step (.constant (.ok .nil)))
        (Config.init (state_manager_pool (Fin 1) one_idle) (fun _ => .table 0) fun _ => lockable) c ∧
      (c.log 0).length = 8 ∧
      (c.log 0).filterMap Note.handed = [(0, some [.table 0]), (0, some [.table 0])] ∧
      ∃ stage, Kept (fun _ => .table 0) (c.log 0) stage := by
  obtain ⟨hmain, hpool⟩ := stack_discipline (T := Fin 1) (.constant (.ok .nil)) (fun _ => .table 0) fun _ => lockable
  let lock := Task.callback (.lock (some (bytes "/")) (CInt.int.wrap 0))
  constructor
  · have h : (Base.exec (step (.constant (.ok .nil)))
        (Config.init (state_manager_main (Fin 1) 0) (fun _ => .table 0) fun _ => lockable)
        [.call 0 lock .zeroed, .manage (Manager.Main.Act.open 0), .start 0, .finish 0,
          .manage (Manager.Main.Act.close 0 none), .call 0 (.callback .destroy) .zeroed,
          .manage (Manager.Main.Act.open 0), .start 0, .finish 0, .manage (Manager.Main.Act.close 0 none)]).map
        (fun r => ((r.2.log 0).length, (r.2.log 0).filterMap Note.handed)) =
          some (8, [(0, some [.table 0]), (0, some [.table 0])]) := by
      decide +kernel
    obtain ⟨⟨tr, c⟩, hexec, hlog⟩ := Option.map_eq_some_iff.mp h
    obtain ⟨hlength, hhanded⟩ := Prod.mk.inj hlog
    exact ⟨c, ⟨tr, run_of_exec _ hexec⟩, hlength, hhanded, hmain 0 c ⟨tr, run_of_exec _ hexec⟩ 0⟩
  · have h : (Base.exec (step (.constant (.ok .nil)))
        (Config.init (state_manager_pool (Fin 1) one_idle) (fun _ => .table 0) fun _ => lockable)
        [.call 0 lock .zeroed, .manage (Manager.Act.open 0), .manage (Manager.Act.construct 0), .start 0, .finish 0,
          .manage (Manager.Act.close 0), .call 0 (.callback .destroy) .zeroed, .manage (Manager.Act.open 0), .start 0,
          .finish 0, .manage (Manager.Act.close 0)]).map
        (fun r => ((r.2.log 0).length, (r.2.log 0).filterMap Note.handed)) =
          some (8, [(0, some [.table 0]), (0, some [.table 0])]) := by
      decide +kernel
    obtain ⟨⟨tr, c⟩, hexec, hlog⟩ := Option.map_eq_some_iff.mp h
    obtain ⟨hlength, hhanded⟩ := Prod.mk.inj hlog
    exact ⟨c, ⟨tr, run_of_exec _ hexec⟩, hlength, hhanded, hpool _ c ⟨tr, run_of_exec _ hexec⟩ 0⟩

end DromozoaFuse.Session
