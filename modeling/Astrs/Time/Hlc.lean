/-
Hybrid logical clocks.

A timestamp is a physical part of 64 bits and a logical part of 32, ordered by the
physical part first.  The wall clock is read once in each call; nothing is assumed
about its readings.
-/

import Mathlib.Data.List.Basic
import Mathlib.Order.Fin.Basic

namespace Astrs.Time

abbrev PhysicalNs := Fin 18446744073709551616

abbrev Logical := Fin 4294967296

structure HlcTimestamp where
  physicalNs : PhysicalNs
  logical : Logical
  deriving DecidableEq

namespace HlcTimestamp

def epoch : HlcTimestamp := ⟨0,0⟩

def max : HlcTimestamp := ⟨18446744073709551615,4294967295⟩

instance : LT HlcTimestamp where
  lt left right := left.physicalNs < right.physicalNs ∨
    (left.physicalNs = right.physicalNs ∧ left.logical < right.logical)

instance (left right : HlcTimestamp) : Decidable (left < right) :=
  inferInstanceAs (Decidable (_ ∨ _))

theorem lt_iff {left right : HlcTimestamp} :
    left < right ↔ left.physicalNs.val < right.physicalNs.val ∨
      (left.physicalNs.val = right.physicalNs.val ∧ left.logical.val < right.logical.val) := by
  rw [← Fin.ext_iff]
  rfl

theorem lt_trans {first second third : HlcTimestamp} (before : first < second)
    (after : second < third) : first < third := by
  rw [lt_iff] at before after ⊢
  omega

theorem eq_max {stamp : HlcTimestamp} (physical : stamp.physicalNs.val = 18446744073709551615)
    (logical : stamp.logical.val = 4294967295) : stamp = max := by
  cases stamp
  simp only [max,HlcTimestamp.mk.injEq]
  exact ⟨Fin.ext physical,Fin.ext logical⟩

end HlcTimestamp

/-- The timestamp that follows; the last one is followed by itself. -/
def successor (physical : PhysicalNs) (logical : Logical) : HlcTimestamp :=
  if carries : logical.val + 1 < 4294967296 then ⟨physical,⟨logical + 1,carries⟩⟩
  else if ends : physical.val + 1 < 18446744073709551616 then ⟨⟨physical + 1,ends⟩,0⟩
  else HlcTimestamp.max

variable {stamp : HlcTimestamp} {physical : PhysicalNs}

theorem lt_successor {logical : Logical}
    (below : stamp ≠ HlcTimestamp.max) (same : stamp.physicalNs = physical)
    (upTo : stamp.logical ≤ logical) : stamp < successor physical logical := by
  have smaller : stamp.logical.val ≤ logical.val := upTo
  subst same
  unfold successor
  rw [HlcTimestamp.lt_iff]
  split
  · right
    exact ⟨rfl,Nat.lt_succ_of_le smaller⟩
  · split
    · left
      exact Nat.lt_succ_self _
    · right
      have different : stamp.logical.val ≠ 4294967295 :=
        fun last => below (HlcTimestamp.eq_max (by omega) last)
      refine ⟨?_,?_⟩
      · change stamp.physicalNs.val = 18446744073709551615
        omega
      · change stamp.logical.val < 4294967295
        omega

theorem lt_of_physical (logical : Logical)
    (ahead : stamp.physicalNs < physical) : stamp < ⟨physical,logical⟩ := by
  exact .inl ahead

/-- A successor keeps or raises the physical part. -/
theorem lt_successor_of_physical (logical : Logical) (ahead : stamp.physicalNs < physical) :
    stamp < successor physical logical := by
  unfold successor
  have before : stamp.physicalNs.val < physical.val := ahead
  split
  · exact .inl before
  · split
    · left
      change stamp.physicalNs.val < physical.val + 1
      omega
    · left
      change stamp.physicalNs.val < 18446744073709551615
      omega

structure HlcClock where
  state : HlcTimestamp
  maxDrift : Nat

structure HlcDriftError where
  localWallNs : PhysicalNs
  remotePhysicalNs : PhysicalNs
  drift : Nat
  maxDrift : Nat
  deriving DecidableEq

namespace HlcClock

def withMaxDrift (maxDrift : Nat) : HlcClock := { state := HlcTimestamp.epoch, maxDrift := maxDrift }

def now (clock : HlcClock) (wall : PhysicalNs) : HlcTimestamp × HlcClock :=
  let stamp :=
    if clock.state.physicalNs < wall then ⟨wall,0⟩
    else successor clock.state.physicalNs clock.state.logical
  (stamp,{ clock with state := stamp })

/-- The timestamp of a merge: the latest of the three physical times, and the logical
part of those that tie for it. -/
def merged (wall : PhysicalNs) (state remote : HlcTimestamp) : HlcTimestamp :=
  let latest := max (max wall state.physicalNs) remote.physicalNs
  if latest = state.physicalNs ∧ latest = remote.physicalNs then
    successor latest (max state.logical remote.logical)
  else if latest = state.physicalNs then successor latest state.logical
  else if latest = remote.physicalNs then successor latest remote.logical
  else ⟨latest,0⟩

/-- Merges the timestamp of a peer unless its physical part is too far ahead. -/
def updateWith (clock : HlcClock) (wall : PhysicalNs) (remote : HlcTimestamp) :
    Except HlcDriftError HlcTimestamp × HlcClock :=
  let drift := remote.physicalNs.val - wall.val
  if min clock.maxDrift 18446744073709551615 < drift then
    (.error
      { localWallNs := wall
        remotePhysicalNs := remote.physicalNs
        drift := drift
        maxDrift := clock.maxDrift },clock)
  else
    let stamp := merged wall clock.state remote
    (.ok stamp,{ clock with state := stamp })

variable {clock : HlcClock} {remote : HlcTimestamp} {wall : PhysicalNs}

theorem lt_now (below : clock.state ≠ HlcTimestamp.max) (wall : PhysicalNs) :
    clock.state < (clock.now wall).1 := by
  unfold now
  split
  · rename_i ahead
    exact lt_of_physical 0 ahead
  · exact lt_successor below rfl (Nat.le_refl _)

theorem state_lt_merged {state : HlcTimestamp} (below : state ≠ HlcTimestamp.max)
    (wall : PhysicalNs) (remote : HlcTimestamp) : state < merged wall state remote := by
  have reached : state.physicalNs ≤ max (max wall state.physicalNs) remote.physicalNs :=
    le_trans (le_max_right _ _) (le_max_left _ _)
  unfold merged
  dsimp only
  split
  · rename_i tie
    exact lt_successor below tie.1.symm (le_max_left _ _)
  · split
    · rename_i tie
      exact lt_successor below tie.symm (le_refl _)
    · rename_i apart
      have ahead := lt_of_le_of_ne reached fun same => apart same.symm
      split
      · exact lt_successor_of_physical _ ahead
      · exact lt_of_physical 0 ahead

theorem remote_lt_merged (below : remote ≠ HlcTimestamp.max)
    (wall : PhysicalNs) (state : HlcTimestamp) : remote < merged wall state remote := by
  have reached : remote.physicalNs ≤ max (max wall state.physicalNs) remote.physicalNs :=
    le_max_right _ _
  unfold merged
  dsimp only
  split
  · rename_i tie
    exact lt_successor below tie.2.symm (le_max_right _ _)
  · rename_i noTie
    split
    · rename_i tie
      have ahead := lt_of_le_of_ne reached fun same => noTie ⟨tie,same.symm⟩
      exact lt_successor_of_physical _ ahead
    · split
      · rename_i tie
        exact lt_successor below tie.symm (le_refl _)
      · rename_i apart
        exact lt_of_physical 0 (lt_of_le_of_ne reached fun same => apart same.symm)

theorem updateWith_rejected
    {failure : HlcDriftError} (rejected : (clock.updateWith wall remote).1 = .error failure) :
    (clock.updateWith wall remote).2 = clock := by
  unfold updateWith at rejected ⊢
  dsimp only at rejected ⊢
  split
  · rfl
  · rename_i within
    rw [if_neg within] at rejected
    cases rejected

theorem updateWith_merged
    (accepted : (clock.updateWith wall remote).1 = .ok stamp) :
    stamp = merged wall clock.state remote ∧
      (clock.updateWith wall remote).2 = { clock with state := stamp } := by
  unfold updateWith at accepted ⊢
  dsimp only at accepted ⊢
  split
  · rename_i far
    rw [if_pos far] at accepted
    cases accepted
  · rename_i within
    rw [if_neg within] at accepted
    cases accepted
    exact ⟨rfl,rfl⟩

end HlcClock

end Astrs.Time
