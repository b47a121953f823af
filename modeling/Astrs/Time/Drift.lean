/-
How far a clock is ahead of the wall.

A merge refuses a timestamp that is too far ahead, but stores the successor of the one it
accepts, and the successor of a full logical part is a nanosecond later.
-/

import Astrs.Time.Hlc

namespace Astrs.Time

def HlcTimestamp.Full (stamp : HlcTimestamp) (limit : Nat) : Prop :=
  stamp.physicalNs.val = limit ∧ stamp.logical.val = 4294967295

theorem successor_physical (physical : PhysicalNs) (logical : Logical) :
    (successor physical logical).physicalNs.val =
      if logical.val = 4294967295 ∧ physical.val < 18446744073709551615 then physical.val + 1
      else physical.val := by
  unfold successor
  split
  · rw [if_neg (by omega)]
  · split
    · rw [if_pos (by omega)]
    · rw [if_neg (by omega)]
      change 18446744073709551615 = physical.val
      omega

namespace HlcClock

inductive Call where
  | now (wall : PhysicalNs)
  | updateWith (wall : PhysicalNs) (remote : HlcTimestamp)

def Call.wall : Call → PhysicalNs
  | now wall => wall
  | updateWith wall _ => wall

def call (clock : HlcClock) : Call → HlcClock
  | .now wall => (clock.now wall).2
  | .updateWith wall remote => (clock.updateWith wall remote).2

/-- The timestamps that a call puts its own after: a remote one unless it is refused. -/
def follows (clock : HlcClock) : Call → List HlcTimestamp
  | .now _ => [clock.state]
  | .updateWith wall remote =>
    if remote.physicalNs.val ≤ wall + clock.maxDrift then [clock.state,remote] else []

/-- After each call the physical part is within the drift of the largest reading so far. -/
def Bounded : HlcClock → Nat → List Call → Prop
  | _,_,[] => True
  | clock,seen,first :: rest =>
    (clock.call first).state.physicalNs ≤ max seen first.wall + clock.maxDrift ∧
      (clock.call first).Bounded (max seen first.wall) rest

/-- No call follows a timestamp at the limit whose logical part is full, except at the end of
the physical range. -/
def Unspent : HlcClock → Nat → List Call → Prop
  | _,_,[] => True
  | clock,seen,first :: rest =>
    (max seen first.wall + clock.maxDrift < 18446744073709551615 →
      ∀ stamp ∈ clock.follows first, ¬ stamp.Full (max seen first.wall + clock.maxDrift)) ∧
      (clock.call first).Unspent (max seen first.wall) rest

variable {clock : HlcClock} {seen : Nat}

theorem merged_bounded_iff {wall : PhysicalNs} {state remote : HlcTimestamp} {limit : Nat}
    (own : state.physicalNs ≤ limit) (near : remote.physicalNs ≤ limit) (read : wall ≤ limit) :
    (merged wall state remote).physicalNs ≤ limit ↔
      (limit < 18446744073709551615 → ¬ state.Full limit ∧ ¬ remote.Full limit) := by
  have ends := state.logical.isLt
  have remoteEnds := remote.logical.isLt
  unfold merged HlcTimestamp.Full
  simp only [Fin.ext_iff,Fin.coe_max]
  split
  · rw [successor_physical]
    simp only [Fin.coe_max]
    split <;> omega
  · split
    · rw [successor_physical]
      simp only [Fin.coe_max]
      split <;> omega
    · split
      · rw [successor_physical]
        simp only [Fin.coe_max]
        split <;> omega
      · simp only [Fin.coe_max]
        omega

theorem call_bounded_iff (within : clock.state.physicalNs ≤ seen + clock.maxDrift) (first : Call) :
    (clock.call first).state.physicalNs ≤ max seen first.wall + clock.maxDrift ↔
      (max seen first.wall + clock.maxDrift < 18446744073709551615 →
        ∀ stamp ∈ clock.follows first, ¬ stamp.Full (max seen first.wall + clock.maxDrift)) := by
  cases first with
  | now wall =>
    have ends := clock.state.logical.isLt
    unfold call now follows Call.wall HlcTimestamp.Full
    rw [List.forall_mem_singleton]
    dsimp only
    split
    · rename_i ahead
      have later : clock.state.physicalNs.val < wall.val := ahead
      dsimp only
      omega
    · rw [successor_physical]
      split <;> omega
  | updateWith wall remote =>
    unfold call updateWith follows Call.wall
    dsimp only
    split
    · rw [if_neg (by omega)]
      simp only [List.not_mem_nil,false_imp_iff,implies_true,iff_true]
      omega
    · rw [if_pos (by omega),List.forall_mem_cons,List.forall_mem_singleton]
      exact merged_bounded_iff (by omega) (by omega) (by omega)

theorem call_maxDrift (first : Call) : (clock.call first).maxDrift = clock.maxDrift := by
  cases first with
  | now wall => rfl
  | updateWith wall remote =>
    unfold call updateWith
    dsimp only
    split
    · rfl
    · rfl

theorem bounded_iff (calls : List Call) (within : clock.state.physicalNs ≤ seen + clock.maxDrift) :
    clock.Bounded seen calls ↔ clock.Unspent seen calls := by
  induction calls generalizing clock seen with
  | nil => rfl
  | cons first rest ih =>
    unfold Bounded Unspent
    rw [← call_bounded_iff within first]
    apply and_congr_right
    intro still
    exact ih (by rw [call_maxDrift]; exact still)

/-- A clock stays within its drift of the wall through a sequence of calls exactly when no
call follows a timestamp at the limit with a full logical part. -/
theorem drift_bounded_iff (maxDrift : Nat) (calls : List Call) :
    (withMaxDrift maxDrift).Bounded 0 calls ↔ (withMaxDrift maxDrift).Unspent 0 calls :=
  bounded_iff calls (Nat.zero_le _)

/-- One remote timestamp half a second ahead, with a full logical part, moves the clock
half a second and a nanosecond ahead. -/
theorem full_remote_exceeds_drift :
    ¬ (withMaxDrift 500000000).Bounded 0 [.updateWith 1000 ⟨500001000,4294967295⟩] :=
  fun bounded => absurd bounded.1 (by decide)

end HlcClock

end Astrs.Time
