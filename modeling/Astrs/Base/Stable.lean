/-
Stable sorting by insertion.

Insertion only asks whether an element may stand before a later one, so an order that breaks
ties by position sorts as the order without the tie-break.
-/

import Mathlib.Data.List.Sort

namespace Astrs.Base

open List

section

variable {α β : Type} {tagged : α → α → Prop} {plain : β → β → Prop} [DecidableRel tagged]
  [DecidableRel plain]

theorem map_orderedInsert_of_agree (project : α → β) {value : α} {values : List α}
    (agree : ∀ later ∈ values, tagged value later ↔ plain (project value) (project later)) :
    (values.orderedInsert tagged value).map project =
      (values.map project).orderedInsert plain (project value) := by
  induction values with
  | nil => rfl
  | cons head tail ih =>
    have here := agree head mem_cons_self
    have rest := ih fun later mem => agree later (mem_cons_of_mem head mem)
    rw [map_cons,orderedInsert_cons,orderedInsert_cons]
    by_cases first : tagged value head
    · rw [if_pos first,if_pos (here.mp first)]
      rfl
    · rw [if_neg first,if_neg (mt here.mpr first),map_cons,rest]

theorem map_insertionSort_of_pairwise (project : α → β) {values : List α}
    (agree : values.Pairwise fun value later =>
      tagged value later ↔ plain (project value) (project later)) :
    (values.insertionSort tagged).map project = (values.map project).insertionSort plain := by
  induction agree with
  | nil => rfl
  | cons here _ ih =>
    rw [map_cons,insertionSort_cons,insertionSort_cons,← ih]
    apply map_orderedInsert_of_agree
    intro later mem
    exact here later ((mem_insertionSort _).mp mem)

end

variable {α : Type} (order : α → α → Prop) [DecidableRel order] [Std.Total order]
  [IsTrans α order]

theorem orderedInsert_comm {low high : α} (strict : ¬ order high low) (values : List α) :
    (values.orderedInsert order high).orderedInsert order low =
      (values.orderedInsert order low).orderedInsert order high := by
  have upward : order low high := (Std.Total.total low high).resolve_right strict
  induction values with
  | nil => simp [upward,strict]
  | cons head tail ih =>
    by_cases above : order high head
    · have before : order low head := IsTrans.trans _ _ _ upward above
      simp [above,before,upward,strict]
    · by_cases before : order low head
      · simp [above,before,strict]
      · simp [above,before,ih]

/-- Sorting a front part first changes nothing. -/
theorem insertionSort_append_insertionSort (front back : List α) :
    (front.insertionSort order ++ back).insertionSort order =
      (front ++ back).insertionSort order := by
  have pushed (value : α) (values : List α) :
      (values.orderedInsert order value ++ back).insertionSort order =
        ((values ++ back).insertionSort order).orderedInsert order value := by
    induction values with
    | nil => rfl
    | cons head tail ih =>
      rw [orderedInsert_cons]
      split
      · rfl
      · rename_i strict
        rw [cons_append,insertionSort_cons,ih,cons_append,insertionSort_cons,
          orderedInsert_comm order strict]
  induction front with
  | nil => rfl
  | cons value front ih => rw [insertionSort_cons,pushed,ih,cons_append,insertionSort_cons]

end Astrs.Base
