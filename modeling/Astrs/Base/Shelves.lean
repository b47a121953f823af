/-
Items on shelves, moved one by one.

A shelf is emptied into the hand, and the items in the hand are put back one after the
other.  All the while an item is in one spot, once.
-/

import Mathlib.Data.List.Count

namespace Astrs.Base

variable {P ι : Type}

namespace Shelves

def put [DecidableEq P] (shelves : P → List ι) (place : P) (item : ι) : P → List ι :=
  Function.update shelves place (shelves place ++ [item])

def clear [DecidableEq P] (shelves : P → List ι) (place : P) : P → List ι :=
  Function.update shelves place []

variable [DecidableEq ι]

/-- The item is on this shelf, once, and on no other. -/
structure SitsAt (shelves : P → List ι) (item : ι) (place : P) : Prop where
  here : (shelves place).count item = 1
  elsewhere : ∀ other, other ≠ place → (shelves other).count item = 0

inductive Kept (shelves : P → List ι) (hand : List ι) (good : P → Prop) (held : Prop) (item : ι) :
    Prop
  | shelved {place : P} (away : hand.count item = 0) (sits : SitsAt shelves item place)
      (fits : good place)
  | inHand (once : hand.count item = 1) (off : ∀ place, (shelves place).count item = 0)
      (rightly : held)

section Moves

variable {shelves : P → List ι} {hand : List ι} {good finer : P → Prop} {held : Prop}
  {item moved : ι} {place : P}

theorem Kept.imp {right : Prop} (kept : Kept shelves hand good held item)
    (goods : ∀ place, good place → finer place) (holds : held → right) :
    Kept shelves hand finer right item := by
  cases kept with
  | shelved away sits fits => exact .shelved away sits (goods _ fits)
  | inHand once off rightly => exact .inHand once off (holds rightly)

/-- With an empty hand the item is on a shelf. -/
theorem Kept.sits (kept : Kept shelves [] good held item) :
    ∃ place, SitsAt shelves item place ∧ good place := by
  cases kept with
  | shelved away sits fits => exact ⟨_,sits,fits⟩
  | inHand once => cases once

theorem Kept.drop_other (kept : Kept shelves (moved :: hand) good held item)
    (apart : moved ≠ item) : Kept shelves hand good held item := by
  have counted : (moved :: hand).count item = hand.count item := List.count_cons_of_ne apart
  cases kept with
  | shelved away sits fits => exact .shelved (counted ▸ away) sits fits
  | inHand once off rightly => exact .inHand (counted ▸ once) off rightly

theorem Kept.rightly (kept : Kept shelves (item :: hand) good held item) : held := by
  cases kept with
  | shelved away =>
    rw [List.count_cons_self] at away
    omega
  | inHand _ _ rightly => exact rightly

variable [DecidableEq P]

/-- Emptying a shelf into the hand. -/
theorem Kept.take (kept : Kept shelves [] good False item) (place : P) :
    Kept (clear shelves place) (shelves place) (fun other => good other ∧ other ≠ place)
      (good place) item := by
  obtain ⟨spot,sits,fits⟩ := kept.sits
  by_cases same : spot = place
  · subst same
    refine .inHand sits.here ?_ fits
    intro other
    unfold clear
    by_cases here : other = spot
    · rw [here,Function.update_self]
      rfl
    · rw [Function.update_of_ne here]
      exact sits.elsewhere other here
  · refine .shelved (sits.elsewhere place fun reverse => same reverse.symm) ?_ ⟨fits,same⟩
    unfold clear
    constructor
    · rw [Function.update_of_ne same]
      exact sits.here
    · intro other away
      by_cases here : other = place
      · rw [here,Function.update_self]
        rfl
      · rw [Function.update_of_ne here]
        exact sits.elsewhere other away

theorem count_put (shelves : P → List ι) (place other : P) (moved item : ι) :
    (put shelves place moved other).count item =
      (shelves other).count item + if other = place ∧ moved = item then 1 else 0 := by
  unfold put
  by_cases here : other = place
  · subst here
    rw [Function.update_self,List.count_append,List.count_singleton]
    simp
  · rw [Function.update_of_ne here]
    simp [here]

/-- Putting another item away. -/
theorem Kept.put_other (kept : Kept shelves (moved :: hand) good held item)
    (apart : moved ≠ item) : Kept (put shelves place moved) hand good held item := by
  have same : ∀ other, (put shelves place moved other).count item = (shelves other).count item := by
    intro _
    rw [count_put,if_neg fun both => apart both.2,Nat.add_zero]
  have counted : (moved :: hand).count item = hand.count item := List.count_cons_of_ne apart
  cases kept with
  | shelved away sits fits =>
    rw [counted] at away
    exact .shelved away ⟨(same _).trans sits.here,
      fun other elsewhere => (same other).trans (sits.elsewhere other elsewhere)⟩ fits
  | inHand once off rightly =>
    rw [counted] at once
    exact .inHand once (fun other => (same other).trans (off other)) rightly

theorem Kept.put_self (kept : Kept shelves (item :: hand) good held item) (fits : finer place)
    (right : Prop) : Kept (put shelves place item) hand finer right item := by
  cases kept with
  | shelved away =>
    rw [List.count_cons_self] at away
    omega
  | inHand once off _ =>
    rw [List.count_cons_self] at once
    refine .shelved (by omega) ⟨?_,?_⟩ fits
    · rw [count_put,off,if_pos ⟨rfl,rfl⟩]
    · intro _ elsewhere
      rw [count_put,off,if_neg fun both => elsewhere both.1]

end Moves

end Shelves

end Astrs.Base
