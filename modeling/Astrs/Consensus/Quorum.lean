/-
Majorities of finite voter sets.

A voter set overlaps itself and every set that differs from it by one voter.
-/

import Mathlib.Data.Finset.Card

namespace Astrs.Consensus

variable {P : Type}

def Majority (quorum voters : Finset P) : Prop := quorum ⊆ voters ∧ voters.card < 2 * quorum.card

/-- Any two majorities, one of each set, share a voter. -/
def Overlapping (left right : Finset P) : Prop :=
  ∀ quorum other, Majority quorum left → Majority other right → ∃ voter ∈ quorum, voter ∈ other

theorem Overlapping.symm {left right : Finset P} (overlapping : Overlapping left right) :
    Overlapping right left := by
  intro quorum other ofRight ofLeft
  obtain ⟨voter,inOther,inQuorum⟩ := overlapping other quorum ofLeft ofRight
  exact ⟨voter,inQuorum,inOther⟩

variable [DecidableEq P]

/-- Two subsets of one set with more members in total than the set share one. -/
private theorem common_member {quorum other voters : Finset P} (inside : quorum ⊆ voters)
    (otherInside : other ⊆ voters) (crowded : voters.card < quorum.card + other.card) :
    ∃ voter ∈ quorum, voter ∈ other := by
  by_contra apart
  push Not at apart
  have disjoint : Disjoint quorum other := Finset.disjoint_left.mpr apart
  have counted : (quorum ∪ other).card = quorum.card + other.card :=
    Finset.card_union_of_disjoint disjoint
  have bounded : (quorum ∪ other).card ≤ voters.card :=
    Finset.card_le_card (Finset.union_subset inside otherInside)
  omega

theorem Overlapping.refl (voters : Finset P) : Overlapping voters voters := by
  intro _ _ left right
  obtain ⟨inside,_⟩ := left
  obtain ⟨otherInside,_⟩ := right
  exact common_member inside otherInside (by omega)

theorem Overlapping.insert (voters : Finset P) (voter : P) :
    Overlapping voters (insert voter voters) := by
  intro _ _ left right
  obtain ⟨inside,_⟩ := left
  obtain ⟨otherInside,_⟩ := right
  have grown : (Insert.insert voter voters).card ≤ voters.card + 1 := Finset.card_insert_le _ _
  exact common_member (inside.trans (Finset.subset_insert voter voters)) otherInside (by omega)

theorem Overlapping.erase (voters : Finset P) (voter : P) (member : voter ∈ voters) :
    Overlapping voters (voters.erase voter) := by
  have overlapping := (Overlapping.insert (voters.erase voter) voter).symm
  rwa [Finset.insert_erase member] at overlapping

end Astrs.Consensus
