/-
Exact rates.

A rate is a fraction in lowest terms, of events per second.  Numerators and denominators
are 64-bit numbers in the code; sums are taken over 128 bits and rejected when they do
not fit back, before they are reduced.
-/

import Mathlib.Data.List.Perm.Basic
import Mathlib.Data.Nat.Cast.Field
import Mathlib.Data.Rat.Cast.Order
import Mathlib.Data.Rat.Lemmas
import Mathlib.Tactic.FieldSimp
import Mathlib.Tactic.Ring
import Astrs.Manifests.Document

namespace Astrs.Verify

def u64Limit : Nat := 18446744073709551616

structure Rate where
  numerator : Nat
  denominator : Nat
  positive : 0 < denominator
  reduced : Nat.Coprime numerator denominator
  deriving DecidableEq

namespace Rate

def zero : Rate :=
  { numerator := 0
    denominator := 1
    positive := Nat.one_pos
    reduced := Nat.coprime_one_right 0 }

/-- The fraction in lowest terms, unless its denominator is zero. -/
def new (numerator denominator : Nat) : Option Rate :=
  if positive : 0 < denominator then
    some { numerator := numerator / numerator.gcd denominator
           denominator := denominator / numerator.gcd denominator
           positive := Nat.div_gcd_pos_of_pos_right numerator positive
           reduced := Nat.coprime_div_gcd_div_gcd (Nat.gcd_pos_of_pos_right numerator positive) }
  else none

open Manifests.VirtualSource in
def fromVirtualSource : Manifests.VirtualSource → Option Rate
  | timerHz rate => new rate 1
  | timerSecs period => new 1 period
  | timerMillis period => new 1000 period
  | logs _ _ => none
  | status => none

def isZero (rate : Rate) : Bool := decide (rate.numerator = 0)

/-- The sum, unless it does not fit 64 bits before it is reduced. -/
def checkedAdd (left right : Rate) : Option Rate :=
  let numerator := left.numerator * right.denominator + right.numerator * left.denominator
  let denominator := left.denominator * right.denominator
  if numerator < u64Limit ∧ denominator < u64Limit then new numerator denominator else none

def value (rate : Rate) : ℚ := (rate.numerator : ℚ) / rate.denominator

theorem denominator_ne_zero (rate : Rate) : (rate.denominator : ℚ) ≠ 0 :=
  Nat.cast_ne_zero.mpr (Nat.pos_iff_ne_zero.mp rate.positive)

theorem value_zero : zero.value = 0 := by
  unfold value zero
  simp

theorem value_new {numerator denominator : Nat} {rate : Rate}
    (made : new numerator denominator = some rate) :
    rate.value = (numerator : ℚ) / denominator := by
  unfold new at made
  split at made
  · rename_i positive
    cases made
    have common : ((numerator.gcd denominator : Nat) : ℚ) ≠ 0 :=
      Nat.cast_ne_zero.mpr (Nat.pos_iff_ne_zero.mp (Nat.gcd_pos_of_pos_right numerator positive))
    change ((numerator / numerator.gcd denominator : Nat) : ℚ) /
      ((denominator / numerator.gcd denominator : Nat) : ℚ) = _
    rw [Nat.cast_div (Nat.gcd_dvd_left numerator denominator) common,
      Nat.cast_div (Nat.gcd_dvd_right numerator denominator) common]
    exact div_div_div_cancel_right₀ common _ _
  · cases made

variable {left right sum : Rate}

theorem value_sum (made : new (left.numerator * right.denominator + right.numerator * left.denominator)
      (left.denominator * right.denominator) = some sum) :
    sum.value = left.value + right.value := by
  rw [value_new made]
  unfold value
  have leftNonzero := left.denominator_ne_zero
  have rightNonzero := right.denominator_ne_zero
  push_cast
  field_simp

theorem value_checkedAdd (added : left.checkedAdd right = some sum) :
    sum.value = left.value + right.value := by
  unfold checkedAdd at added
  dsimp only at added
  split at added
  · exact value_sum added
  · cases added

theorem value_foldlM {rates : List Rate} {total : Rate}
    (added : rates.foldlM checkedAdd total = some sum) :
    sum.value = rates.foldl (fun value rate => value + rate.value) total.value := by
  induction rates generalizing total with
  | nil =>
    cases added
    rfl
  | cons rate rest ih =>
    obtain ⟨_,first,others⟩ := Option.bind_eq_some_iff.mp added
    rw [ih others,value_checkedAdd first]
    rfl

theorem value_injective (same : left.value = right.value) : left = right := by
  unfold value at same
  obtain ⟨numerators,denominators⟩ := @Rat.div_int_inj left.numerator left.denominator right.numerator
    right.denominator (Int.natCast_pos.mpr left.positive) (Int.natCast_pos.mpr right.positive)
    left.reduced right.reduced same
  cases left
  cases right
  cases Int.ofNat.inj numerators
  cases Int.ofNat.inj denominators
  rfl

def Fits (numerator denominator : Nat) : Prop := numerator < u64Limit ∧ denominator < u64Limit

/-- The sum of two rates fits 64 bits before it is reduced. -/
def Addable (left right : ℚ) : Prop :=
  Fits (left.num * right.den + right.num * left.den).toNat (left.den * right.den)

theorem checkedAdd_isSome_iff :
    (left.checkedAdd right).isSome = true ↔ Addable left.value right.value := by
  have parts : ∀ rate : Rate, rate.value.num = rate.numerator ∧ rate.value.den = rate.denominator := by
    intro rate
    have positive : (0 : ℤ) < rate.denominator := Int.natCast_pos.mpr rate.positive
    exact ⟨Rat.num_div_eq_of_coprime positive rate.reduced,
      Int.ofNat.inj (Rat.den_div_eq_of_coprime positive rate.reduced)⟩
  unfold Addable checkedAdd
  rw [(parts left).1,(parts left).2,(parts right).1,(parts right).2]
  norm_cast
  dsimp only
  split
  · rename_i fits
    refine iff_of_true ?_ fits
    rw [new,dif_pos (Nat.mul_pos left.positive right.positive)]
    rfl
  · rename_i large
    exact iff_of_false nofun large

/-- The sum is the exact one whenever that fits 64 bits, exactly if it fits before it is
reduced, or does not fit afterwards.  The order of several summands never matters. -/
theorem checkedAdd_exact_iff (left right : Rate) :
    let numerator := left.numerator * right.denominator + right.numerator * left.denominator
    let denominator := left.denominator * right.denominator
    let common := numerator.gcd denominator
    ((∀ sum, left.checkedAdd right = some sum ↔
        sum.value = left.value + right.value ∧ Fits sum.numerator sum.denominator) ↔
      (Fits numerator denominator ∨ ¬ Fits (numerator / common) (denominator / common))) ∧
    ∀ (rates reordered : List Rate) (first second : Rate), rates.Perm reordered →
      rates.foldlM checkedAdd zero = some first →
      reordered.foldlM checkedAdd zero = some second → first = second := by
  intro numerator denominator common
  constructor
  · have positive : 0 < denominator := Nat.mul_pos left.positive right.positive
    obtain ⟨reduced,made,upper,lower⟩ : ∃ reduced, new numerator denominator = some reduced ∧
        reduced.numerator = numerator / common ∧ reduced.denominator = denominator / common :=
      ⟨_,dif_pos positive,rfl,rfl⟩
    have exact : reduced.value = left.value + right.value := value_sum made
    have only : ∀ sum : Rate, sum.value = left.value + right.value ↔ reduced = sum :=
      fun sum => ⟨fun same => value_injective (exact.trans same.symm),fun same => same ▸ exact⟩
    simp only [only,← upper,← lower]
    by_cases fits : Fits numerator denominator
    · have smaller : Fits reduced.numerator reduced.denominator := by
        rw [upper,lower]
        exact ⟨Nat.lt_of_le_of_lt (Nat.div_le_self _ _) fits.1,
          Nat.lt_of_le_of_lt (Nat.div_le_self _ _) fits.2⟩
      have added : left.checkedAdd right = some reduced := (if_pos fits).trans made
      refine iff_of_true (fun sum => ?_) (.inl fits)
      rw [added,Option.some.injEq]
      exact ⟨fun same => ⟨same,same ▸ smaller⟩,And.left⟩
    · have refused : left.checkedAdd right = none := if_neg fits
      rw [refused,or_iff_right fits]
      constructor
      · intro all small
        cases (all reduced).mpr ⟨rfl,small⟩
      · intro large sum
        exact ⟨nofun,fun both => absurd (both.1 ▸ both.2) large⟩
  · intro rates reordered first second perm one other
    apply value_injective
    rw [value_foldlM one,value_foldlM other]
    exact perm.foldl_eq' (fun _ _ _ _ _ => add_right_comm (_ : ℚ) _ _) _

def third : Rate := ⟨1,3,by decide,by decide⟩

def sixth : Rate := ⟨1,6,by decide,by decide⟩

theorem third_sixth_exact :
    (∀ sum, third.checkedAdd sixth = some sum ↔
      sum.value = third.value + sixth.value ∧ Fits sum.numerator sum.denominator) ∧
      ∃ first second, [third,sixth].foldlM checkedAdd zero = some first ∧
        [sixth,third].foldlM checkedAdd zero = some second ∧ first = second :=
  ⟨(checkedAdd_exact_iff third sixth).1.mpr (.inl ⟨by decide,by decide⟩),
    ⟨1,2,by decide,by decide⟩,⟨1,2,by decide,by decide⟩,by decide,by decide,
    (checkedAdd_exact_iff third sixth).2 [third,sixth] [sixth,third] _ _ (.swap _ _ _)
      (by decide) (by decide)⟩

def slow : Rate := ⟨1,5000000000,by decide,by decide⟩

def doubled : Rate := ⟨1,2500000000,by decide,by decide⟩

/-- One event in five thousand million seconds, twice, is one in half as many. -/
theorem slow_sum_refused : slow.checkedAdd slow = none ∧
    doubled.value = slow.value + slow.value ∧ Fits doubled.numerator doubled.denominator :=
  ⟨by decide,by unfold value slow doubled; norm_num,by decide,by decide⟩

end Rate

/-! ### The window of a model -/

end Astrs.Verify
