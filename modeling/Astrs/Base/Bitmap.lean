/-
Bitmaps of at most 256 positions.

The positions past the ones in use are clear, so marking a position further out
never brings an old mark into view.
-/

import Mathlib.Order.Defs.LinearOrder
import Mathlib.Data.List.Basic
import Mathlib.Data.Nat.Init

namespace Astrs.Base

structure Bitmap where
  numBits : Nat
  bits : BitVec 256
  bounded : numBits ≤ 256
  clear : ∀ position, numBits ≤ position → bits.getLsbD position = false

namespace Bitmap

def empty : Bitmap where
  numBits := 0
  bits := 0
  bounded := Nat.zero_le _
  clear := fun _ _ => by simp

def isEmpty (bitmap : Bitmap) : Bool := bitmap.bits == 0

def contains (bitmap : Bitmap) (position : Nat) : Bool :=
  decide (position < bitmap.numBits) && bitmap.bits.getLsbD position

def positions (bitmap : Bitmap) : List Nat := (List.range bitmap.numBits).filter bitmap.bits.getLsbD

variable {spot : Nat} {bitmap : Bitmap}

theorem getLsbD_mark (bits : BitVec 256) (fits : spot < 256) (other : Nat) :
    (bits ||| BitVec.twoPow 256 spot).getLsbD other =
      (bits.getLsbD other || decide (other = spot)) := by
  by_cases same : other = spot
  · simp [same,fits]
  · have differs : spot ≠ other := fun equal => same equal.symm
    simp [same,differs]

def mark (bitmap : Bitmap) (position : Fin 256) : Bitmap where
  numBits := if bitmap.numBits ≤ position then position + 1 else bitmap.numBits
  bits := bitmap.bits ||| BitVec.twoPow 256 position
  bounded := by
    have fits := position.isLt
    have held := bitmap.bounded
    split <;> omega
  clear := by
    intro other past
    rw [getLsbD_mark _ position.isLt]
    have beyond : bitmap.numBits ≤ other := by split at past <;> omega
    have differs : other ≠ position := by split at past <;> omega
    rw [bitmap.clear other beyond,decide_eq_false differs]
    rfl

theorem mem_positions : spot ∈ bitmap.positions ↔ bitmap.bits.getLsbD spot = true := by
  unfold positions
  rw [List.mem_filter,List.mem_range]
  constructor
  · intro found
    exact found.2
  · intro marked
    refine ⟨?_,marked⟩
    rcases Nat.lt_or_ge spot bitmap.numBits with within | past
    · exact within
    · rw [bitmap.clear spot past] at marked
      cases marked

@[simp] theorem mem_positions_mark {spot : Fin 256} {other : Nat} :
    other ∈ (bitmap.mark spot).positions ↔ other ∈ bitmap.positions ∨ other = spot := by
  rw [mem_positions,mem_positions]
  change (bitmap.bits ||| BitVec.twoPow 256 spot).getLsbD other = true ↔ _
  rw [getLsbD_mark _ spot.isLt]
  simp

theorem contains_iff : bitmap.contains spot = true ↔ spot ∈ bitmap.positions := by
  unfold contains positions
  rw [Bool.and_eq_true,decide_eq_true_eq,List.mem_filter,List.mem_range]

/-- The 32 positions of one word, the first of them its most significant bit. -/
def word (bitmap : Bitmap) (index : Nat) : Nat :=
  Nat.ofBits fun (low : Fin 32) => bitmap.bits.getLsbD (32 * index + (31 - low))

def numWords (bitmap : Bitmap) : Nat := (bitmap.numBits + 31) / 32

def words (bitmap : Bitmap) : List Nat := (List.range bitmap.numWords).map bitmap.word

end Bitmap

end Astrs.Base
