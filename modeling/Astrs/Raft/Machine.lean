/-
The application a replica drives.

Of the contract with it recovery relies on the laws below: the index a machine reports as
durably applied never runs ahead of what it was given.
-/

import Astrs.Raft.Types

namespace Astrs.Raft

/-- The application being replicated.  A failed call may still have changed the
machine, so the machine is returned beside the outcome. -/
class StateMachine (M : Type) where
  apply : M → Nat → Bytes → M × Except String Bytes
  snapshot : M → Except String Bytes
  restore : M → Bytes → M × Except String Unit
  appliedIndex : M → Nat

class LawfulStateMachine (M : Type) [StateMachine M] : Prop where
  apply_ok : ∀ (machine : M) (index : Nat) (command reply : Bytes),
    (StateMachine.apply machine index command).2 = .ok reply →
      StateMachine.appliedIndex (StateMachine.apply machine index command).1 ≤
        max (StateMachine.appliedIndex machine) index
  apply_error : ∀ (machine : M) (index : Nat) (command : Bytes) (reason : String),
    (StateMachine.apply machine index command).2 = .error reason →
      StateMachine.appliedIndex (StateMachine.apply machine index command).1 ≤
        StateMachine.appliedIndex machine
  restore_ok : ∀ (source machine : M) (data : Bytes), StateMachine.snapshot source = .ok data →
      (StateMachine.restore machine data).2 = .ok () →
        StateMachine.appliedIndex (StateMachine.restore machine data).1 ≤
          StateMachine.appliedIndex source
  restore_error : ∀ (machine : M) (data : Bytes) (reason : String),
    (StateMachine.restore machine data).2 = .error reason →
      StateMachine.appliedIndex (StateMachine.restore machine data).1 ≤
        StateMachine.appliedIndex machine

/-- A machine whose commands overwrite one value.  It can be replayed safely, so
it reports nothing as durably applied. -/
structure Register where
  value : Bytes
  deriving DecidableEq

instance : StateMachine Register where
  apply := fun _ _ command => (⟨command⟩,.ok command)
  snapshot := fun register => .ok register.value
  restore := fun _ data => (⟨data⟩,.ok ())
  appliedIndex := fun _ => 0

instance : LawfulStateMachine Register where
  apply_ok := fun _ _ _ _ _ => Nat.zero_le _
  apply_error := fun _ _ _ _ _ => Nat.le_refl 0
  restore_ok := fun _ _ _ _ _ => Nat.le_refl 0
  restore_error := fun _ _ _ _ => Nat.le_refl 0

end Astrs.Raft
