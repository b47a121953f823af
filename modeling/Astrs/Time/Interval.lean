/-
Periodic schedules on a fixed grid.

An instant is a number of nanoseconds of a monotonic clock, counted in 64-bit seconds.
-/

import Mathlib.Order.Basic

namespace Astrs.Time

/-- Where the range of instants ends: 2^63 seconds. -/
def instantEnd : Int := 9223372036854775808000000000

theorem zero_started : -instantEnd < 0 := by decide

/-- The longest duration, a nanosecond less than 2^64 seconds. -/
def durationMax : Nat := 18446744073709551615999999999

def checkedAdd (instant : Int) (duration : Nat) : Option Int :=
  if instant + duration < instantEnd then some (instant + duration) else none

/-- The grid `anchor + k * period`.  A zero period has no interval; the anchor is an instant
after the first of the range. -/
structure TimerInterval where
  period : Nat
  anchor : Int
  positive : 0 < period
  started : -instantEnd < anchor

namespace TimerInterval

/-- The smallest grid point strictly after an instant; where there is none in the range, a
period after the instant or, failing that, the instant itself. -/
def nextTick (interval : TimerInterval) (after : Int) : Int :=
  if after < interval.anchor then interval.anchor
  else
    let elapsed := (after - interval.anchor).toNat
    let offset := min ((elapsed / interval.period + 1) * interval.period) durationMax
    (checkedAdd interval.anchor offset).getD ((checkedAdd after interval.period).getD after)

/-- The whole periods since the anchor. -/
def periods (interval : TimerInterval) (instant : Int) : Nat :=
  (instant - interval.anchor).toNat / interval.period

/-- The source counts them in 64 bits and stays at the largest number. -/
def ticksElapsed (interval : TimerInterval) (instant : Int) : Nat :=
  min (interval.periods instant) 18446744073709551615

def ticksBetween (interval : TimerInterval) (first last : Int) : Nat :=
  if last ≤ first then 0
  else interval.ticksElapsed last - interval.ticksElapsed first

/-- The grid has a point after the instant that is itself an instant. -/
def Ranged (interval : TimerInterval) (instant : Int) : Prop :=
  instant < interval.anchor ∨
    interval.anchor + ((interval.periods instant + 1) * interval.period : Nat) < instantEnd

instance (interval : TimerInterval) (instant : Int) : Decidable (interval.Ranged instant) :=
  inferInstanceAs (Decidable (_ ∨ _))

variable {interval : TimerInterval} {after : Int}

theorem nextTick_before (early : after < interval.anchor) :
    interval.nextTick after = interval.anchor := if_pos early

theorem nextTick_late (late : interval.anchor ≤ after) : interval.nextTick after =
    (checkedAdd interval.anchor
        (min ((interval.periods after + 1) * interval.period) durationMax)).getD
      ((checkedAdd after interval.period).getD after) :=
  if_neg (Int.not_lt.mpr late)

theorem nextTick_within (late : interval.anchor ≤ after) (ranged : interval.Ranged after) :
    interval.nextTick after =
      interval.anchor + ((interval.periods after + 1) * interval.period : Nat) := by
  have inside := ranged.resolve_left (Int.not_lt.mpr late)
  -- an offset that leads to an instant is a duration
  have short : (interval.periods after + 1) * interval.period ≤ durationMax := by
    have begun := interval.started
    unfold instantEnd at inside begun
    unfold durationMax
    omega
  rw [nextTick_late late,Nat.min_eq_left short,checkedAdd,if_pos inside]
  rfl

/-- The next grid point is no further than one period. -/
theorem next_le (late : interval.anchor ≤ after) :
    interval.anchor + ((interval.periods after + 1) * interval.period : Nat) ≤
      after + interval.period := by
  have whole := Nat.div_mul_le_self (after - interval.anchor).toNat interval.period
  unfold periods
  rw [Nat.add_mul,Nat.one_mul]
  omega

/-- Out of range a tick goes nowhere. -/
theorem nextTick_beyond (late : interval.anchor ≤ after) (beyond : ¬ interval.Ranged after) :
    interval.nextTick after = after := by
  have near := next_le late
  have outside := Int.not_lt.mp fun inside => beyond (.inr inside)
  have begun := interval.started
  rw [nextTick_late late]
  generalize (interval.periods after + 1) * interval.period = offset at near outside ⊢
  rw [checkedAdd,if_neg (by unfold durationMax; unfold instantEnd at *; omega),checkedAdd,
    if_neg (by omega)]
  rfl

theorem lt_nextTick (ranged : interval.Ranged after) : after < interval.nextTick after := by
  by_cases late : interval.anchor ≤ after
  · have rounds := Nat.lt_div_mul_add interval.positive (a := (after - interval.anchor).toNat)
    rw [nextTick_within late ranged,periods,Nat.add_mul,Nat.one_mul]
    omega
  · rw [nextTick_before (Int.not_le.mp late)]
    exact Int.not_le.mp late

end TimerInterval

end Astrs.Time
