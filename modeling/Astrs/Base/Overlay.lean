/-
Segments of a list, and a piece laid over a list at a position.
-/

import Mathlib.Data.List.Basic

namespace Astrs.Base

open List

variable {α : Type}

def segment (items : List α) (start count : Nat) : List α := (items.drop start).take count

def overlay (items : List α) (start : Nat) (piece : List α) : List α :=
  items.take start ++ piece ++ items.drop (start + piece.length)

theorem length_segment (items : List α) (start count : Nat) :
    (segment items start count).length = min count (items.length - start) := by
  unfold segment
  rw [length_take,length_drop]

theorem segment_take (items : List α) (limit start count : Nat) :
    segment (items.take limit) start count = segment items start (min count (limit - start)) := by
  unfold segment
  rw [drop_take,take_take]

theorem segment_drop (items : List α) (skipped start count : Nat) :
    segment (items.drop skipped) start count = segment items (skipped + start) count := by
  unfold segment
  rw [drop_drop]

theorem segment_segment (items : List α) (outer width start count : Nat) :
    segment (segment items outer width) start count =
      segment items (outer + start) (min count (width - start)) := by
  rw [segment,segment,← segment,segment_take,segment_drop]

/-- What counts beyond the end of the list makes no difference. -/
theorem segment_congr {items : List α} {start left right : Nat}
    (same : min left (items.length - start) = min right (items.length - start)) :
    segment items start left = segment items start right := by
  unfold segment
  rw [take_eq_take_iff,length_drop]
  exact same

theorem length_overlay {items piece : List α} {start : Nat}
    (inside : start + piece.length ≤ items.length) :
    (overlay items start piece).length = items.length := by
  simp only [overlay,length_append,length_take,length_drop]
  omega

section

variable {items piece : List α} {start offset count : Nat} (inside : start ≤ items.length)
include inside

theorem segment_overlay_before (before : offset + count ≤ start) :
    segment (overlay items start piece) offset count = segment items offset count := by
  have length : (items.take start).length = start := by
    rw [length_take]
    omega
  unfold segment overlay
  rw [append_assoc,drop_append_of_le_length (by omega),
    take_append_of_le_length (by rw [length_drop]; omega),drop_take,
    take_take]
  congr 1
  omega

theorem segment_overlay_after (after : start + piece.length ≤ offset) :
    segment (overlay items start piece) offset count = segment items offset count := by
  have length : (items.take start ++ piece).length = start + piece.length := by
    rw [length_append,length_take]
    omega
  unfold segment overlay
  rw [drop_append,drop_eq_nil_of_le (by omega),nil_append,length,drop_drop]
  congr 2
  omega

theorem segment_overlay_inside (within : offset ≤ piece.length)
    (full : offset + count ≤ piece.length ∨ start + piece.length = items.length) :
    segment (overlay items start piece) (start + offset) count = segment piece offset count := by
  have length : (items.take start).length = start := by
    rw [length_take]
    omega
  unfold segment overlay
  rw [append_assoc,drop_append,drop_eq_nil_of_le (by omega),nil_append,
    length,Nat.add_sub_cancel_left,drop_append_of_le_length within]
  rcases full with fits | ends
  · rw [take_append_of_le_length (by rw [length_drop]; omega)]
  · rw [drop_eq_nil_of_le (Nat.le_of_eq ends.symm),append_nil]

end

end Astrs.Base
