/-
Byte strings: little-endian integers, checked slices and codecs.

A codec may refuse a value when encoding and a byte string when decoding.  What
it promises is the round trip: every value it encodes is read back from its own
bytes.
-/

import Mathlib.Algebra.Order.Group.Nat
import Mathlib.Data.List.Basic

namespace Astrs.Base

/-- The low `width` bytes of a number, least significant first. -/
def littleEndian : Nat → Nat → List UInt8
  | 0,_ => []
  | width + 1,value => UInt8.ofNat value :: littleEndian width (value / 256)

def ofLittleEndian : List UInt8 → Nat
  | [] => 0
  | byte :: rest => byte.toNat + 256 * ofLittleEndian rest

@[simp] theorem length_littleEndian (width value : Nat) :
    (littleEndian width value).length = width := by
  induction width generalizing value with
  | zero => rfl
  | succ width ih => simp [littleEndian,ih]

theorem ofLittleEndian_littleEndian {width value : Nat} (fits : value < 256 ^ width) :
    ofLittleEndian (littleEndian width value) = value := by
  induction width generalizing value with
  | zero =>
    have zero : value = 0 := by simpa using fits
    rw [zero]
    rfl
  | succ width ih =>
    have rest : value / 256 < 256 ^ width := by
      apply Nat.div_lt_of_lt_mul
      rw [pow_succ,Nat.mul_comm] at fits
      exact fits
    unfold littleEndian ofLittleEndian
    rw [ih rest,UInt8.toNat_ofNat']
    exact Nat.mod_add_div value 256

variable {α : Type}

def slice (items : List α) (first last : Nat) : Option (List α) :=
  if first ≤ last ∧ last ≤ items.length then some ((items.take last).drop first) else none

variable {items : List α} {first last : Nat}

theorem slice_of_short (short : items.length < last) : slice items first last = none := by
  unfold slice
  rw [if_neg (by omega)]

theorem slice_middle (before inside after : List α)
    (starts : first = before.length) (ends : last = before.length + inside.length) :
    slice (before ++ (inside ++ after)) first last = some inside := by
  subst starts ends
  unfold slice
  rw [if_pos (by simp),← List.append_assoc,List.take_left' (by simp),List.drop_left]

theorem slice_front (inside after : List α) (ends : last = inside.length) :
    slice (inside ++ after) 0 last = some inside := by
  have found := slice_middle [] inside after rfl (ends.trans (Nat.zero_add _).symm)
  simpa using found

theorem exists_first {holds : α → Prop} (fails : ¬ ∀ item ∈ items, holds item) :
    ∃ front item rest, items = front ++ item :: rest ∧
      (∀ other ∈ front, holds other) ∧ ¬ holds item := by
  induction items with
  | nil => exact absurd (List.forall_mem_nil _) fails
  | cons first rest ih =>
    by_cases good : holds first
    · have later : ¬ ∀ item ∈ rest, holds item :=
        fun all => fails (List.forall_mem_cons.mpr ⟨good,all⟩)
      obtain ⟨front,item,more,split,before,failing⟩ := ih later
      refine ⟨first :: front,item,more,?_,List.forall_mem_cons.mpr ⟨good,before⟩,failing⟩
      rw [split,List.cons_append]
    · exact ⟨[],first,rest,rfl,List.forall_mem_nil _,good⟩

/-- A partial encoding of values as bytes that reads back what it wrote. -/
structure Codec (ε α : Type) where
  encode : α → Except ε (List UInt8)
  decode : List UInt8 → Except ε α
  decode_encode : ∀ value bytes, encode value = .ok bytes → decode bytes = .ok value

end Astrs.Base
