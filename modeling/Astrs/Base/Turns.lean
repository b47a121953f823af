/-
Parties that enter one after another, move through phases and leave.

As long as each enters only when the ones before it have left, whoever moves entered last.
-/

import Mathlib.Data.List.Basic

namespace Astrs.Base

/-- How many parties have entered, and the phases of those that have not left. -/
structure Turns (Phase : Type) where
  entered : Nat := 0
  present : List (Nat × Phase) := []
  known : ∀ member ∈ present, member.1 < entered := by exact nofun

namespace Turns

variable {Phase : Type} [DecidableEq Phase] {turns next : Turns Phase} {party other : Nat}
  {before : Phase} {after : Option Phase}

def enter (turns : Turns Phase) (phase : Phase) : Turns Phase where
  entered := turns.entered + 1
  present := (turns.entered,phase) :: turns.present
  known := List.forall_mem_cons.mpr
    ⟨Nat.lt_succ_self _,fun member held => Nat.lt_succ_of_lt (turns.known member held)⟩

/-- A party goes from one phase to another, or leaves. -/
def move (turns : Turns Phase) (party : Nat) (before : Phase) (after : Option Phase) :
    Option (Turns Phase) :=
  if there : (party,before) ∈ turns.present then
    some {
      entered := turns.entered
      present := after.toList.map (Prod.mk party) ++
        turns.present.filter fun member => member.1 ≠ party
      known := by
        intro member held
        rcases List.mem_append.mp held with own | rest
        · obtain ⟨_,_,same⟩ := List.mem_map.mp own
          rw [← same]
          exact turns.known (party,before) there
        · exact turns.known member (List.mem_filter.mp rest).1 }
  else none

theorem move_spec (moved : turns.move party before after = some next) :
    (party,before) ∈ turns.present ∧ next.entered = turns.entered ∧
      next.present = after.toList.map (Prod.mk party) ++
        turns.present.filter fun mem => mem.1 ≠ party := by
  unfold move at moved
  split at moved <;> cases moved
  rename_i there
  exact ⟨there,rfl,rfl⟩

/-- Nobody is present but the party that entered last. -/
def Settled (turns : Turns Phase) : Prop := ∀ member ∈ turns.present, member.1 + 1 = turns.entered

omit [DecidableEq Phase] in
theorem Settled.enter (free : turns.present = []) (phase : Phase) :
    (turns.enter phase).Settled := by
  intro mem held
  change mem ∈ (turns.entered,phase) :: turns.present at held
  rw [free] at held
  rw [List.mem_singleton.mp held]
  rfl

theorem Settled.move (settled : turns.Settled) (moved : turns.move party before after = some next) :
    party + 1 = turns.entered ∧ next.Settled := by
  obtain ⟨there,entered,present⟩ := move_spec moved
  refine ⟨settled _ there,?_⟩
  intro mem held
  rw [entered]
  rw [present] at held
  rcases List.mem_append.mp held with own | rest
  · obtain ⟨_,_,same⟩ := List.mem_map.mp own
    rw [← same]
    exact settled (party,before) there
  · exact settled mem (List.mem_filter.mp rest).1

/-- Whoever is present stays so unless it leaves itself. -/
theorem present_move (moved : turns.move party before after = some next)
    (there : ∃ phase, (other,phase) ∈ turns.present) (stays : party = other → after ≠ none) :
    ∃ phase, (other,phase) ∈ next.present := by
  obtain ⟨phase,held⟩ := there
  rw [(move_spec moved).2.2]
  by_cases own : party = other
  · obtain ⟨later,reached⟩ := Option.ne_none_iff_exists'.mp (stays own)
    refine ⟨later,List.mem_append_left _ ?_⟩
    rw [reached,own]
    exact .head _
  · refine ⟨phase,List.mem_append_right _ (List.mem_filter.mpr ⟨held,?_⟩)⟩
    exact decide_eq_true (Ne.symm own)

end Turns

end Astrs.Base
