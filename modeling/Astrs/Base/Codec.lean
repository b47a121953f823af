/-
Codecs whose layout depends on the position in the stream.

A reader may look ahead at how much is left; what it needs to find there is the `room`
of `Reads`.
-/

import Astrs.Base.Effect
import Mathlib.Data.Vector.Basic

namespace Astrs.Base

variable {ε α β : Type}

/-! ### Putting and getting -/

abbrev Put (ε : Type) := Nat → Except ε (List UInt8)

structure Cursor where
  position : Nat
  rest : List UInt8

abbrev Get (ε : Type) := StateT Cursor (Except ε)

namespace Put

def nothing : Put ε := fun _ => .ok []

def bytes (items : List UInt8) : Put ε := fun _ => .ok items

def require (condition : Prop) [Decidable condition] (failure : ε) : Put ε := fun _ =>
  if condition then .ok [] else .error failure

def andThen (first second : Put ε) : Put ε := fun position => do
  let front ← first position
  let back ← second (position + front.length)
  return front ++ back

def each (put : α → Put ε) : List α → Put ε
  | [] => nothing
  | item :: items => (put item).andThen (each put items)

variable {spot : Nat} {first second : Put ε} {items : List UInt8} {fault : ε}
  {test : Prop}

theorem andThen_ok (done : first.andThen second spot = .ok items) :
    ∃ front back, first spot = .ok front ∧ second (spot + front.length) = .ok back ∧
      items = front ++ back := by
  obtain ⟨front,begun,rest⟩ := bind_ok done
  obtain ⟨back,finished,joined⟩ := bind_ok rest
  cases joined
  exact ⟨front,back,begun,finished,rfl⟩

theorem andThen_of_ok {front : List UInt8} (done : first spot = .ok front) :
    first.andThen second spot = (second (spot + front.length)).map (front ++ ·) := by
  unfold andThen
  rw [done]
  change (second (spot + front.length) >>= _) = _
  cases second (spot + front.length) <;> rfl

theorem andThen_of_error (failed : first spot = .error fault) :
    first.andThen second spot = .error fault := by
  unfold andThen
  rw [failed]
  rfl

theorem require_ok [Decidable test]
    (done : require test fault spot = .ok items) : test ∧ items = [] := by
  unfold require at done
  split at done
  · rename_i holds
    cases done
    exact ⟨holds,rfl⟩
  · cases done

theorem require_andThen [Decidable test] (holds : test) (fault : ε)
    (put : Put ε) : (require test fault).andThen put = put := by
  funext spot
  have passed : require test fault spot = .ok [] := if_pos holds
  rw [andThen_of_ok passed]
  change Except.map id (put spot) = put spot
  rw [Except.map_id]
  rfl

end Put

namespace Get

/-- The next `count` octets; `failure` is told how many there are. -/
def take (count : Nat) (failure : Nat → ε) : Get ε (List UInt8) := fun cursor =>
  if count ≤ cursor.rest.length then
    .ok (cursor.rest.take count,⟨cursor.position + count,cursor.rest.drop count⟩)
  else .error (failure cursor.rest.length)

def remaining : Get ε Nat := fun cursor => .ok (cursor.rest.length,cursor)

def require (condition : Prop) [Decidable condition] (failure : ε) : Get ε Unit := fun cursor =>
  if condition then .ok ((),cursor) else .error failure

def times (get : Get ε α) : (count : Nat) → Get ε (List.Vector α count)
  | 0 => pure List.Vector.nil
  | count + 1 => do
    let item ← get
    let items ← times get count
    return List.Vector.cons item items

/-- Reads inside the next `count` octets and goes on after them. -/
def within (count : Nat) (body : Get ε α) : Get ε α := fun cursor =>
  (body ⟨cursor.position,cursor.rest.take count⟩).map fun result =>
    (result.1,⟨cursor.position + count,cursor.rest.drop count⟩)

theorem bind_of_ok {first : Get ε α} {next : α → Get ε β} {cursor after : Cursor} {value : α}
    (done : first cursor = .ok (value,after)) : (first >>= next) cursor = next value after := by
  change (first cursor >>= fun result => next result.1 result.2) = _
  rw [done]
  rfl

theorem remaining_bind (next : Nat → Get ε β) (cursor : Cursor) :
    (remaining >>= next) cursor = next cursor.rest.length cursor :=
  bind_of_ok rfl

theorem require_bind {test : Prop} [Decidable test] (holds : test) (fault : ε)
    (next : Unit → Get ε β) : (require test fault >>= next) = next () := by
  funext cursor
  exact bind_of_ok (if_pos holds)

end Get

def AtLeast (count : Nat) (put : Put ε) : Prop :=
  ∀ position items, put position = .ok items → count ≤ items.length

namespace AtLeast

theorem mono {small large : Nat} {put : Put ε} (least : AtLeast large put) (below : small ≤ large) :
    AtLeast small put := by
  intro spot items done
  exact Nat.le_trans below (least spot items done)

theorem zero (put : Put ε) : AtLeast 0 put := by
  intro _ _ _
  exact Nat.zero_le _

theorem bytes (items : List UInt8) : AtLeast items.length (Put.bytes items : Put ε) := by
  intro _ _ done
  cases done
  exact Nat.le_refl _

theorem andThen {first second : Nat} {front back : Put ε} (before : AtLeast first front)
    (after : AtLeast second back) : AtLeast (first + second) (front.andThen back) := by
  intro _ _ done
  obtain ⟨_,_,begun,finished,rfl⟩ := Put.andThen_ok done
  rw [List.length_append]
  exact Nat.add_le_add (before _ _ begun) (after _ _ finished)

theorem each {count : Nat} {put : α → Put ε} {items : List α}
    (least : ∀ item ∈ items, AtLeast count (put item)) :
    AtLeast (items.length * count) (Put.each put items) := by
  induction items with
  | nil =>
    rw [List.length_nil,Nat.zero_mul]
    exact zero _
  | cons item items ih =>
    have one : AtLeast count (put item) := least item List.mem_cons_self
    have others : AtLeast (items.length * count) (Put.each put items) :=
      ih fun other mem => least other (List.mem_cons_of_mem _ mem)
    rw [List.length_cons,Nat.succ_mul,Nat.add_comm]
    exact one.andThen others

end AtLeast

/-- `get` finds `value` where `put` wrote, provided `room` more octets follow. -/
def Reads (room : Nat) (get : Get ε α) (put : Put ε) (value : α) : Prop :=
  ∀ position items back, room ≤ back.length → put position = .ok items →
    get ⟨position,items ++ back⟩ = .ok (value,⟨position + items.length,back⟩)

namespace Reads

theorem pure (room : Nat)
    (value : α) : Reads room (Pure.pure value : Get ε α) Put.nothing value := by
  intro _ _ _ _ done
  cases done
  rfl

theorem take (room : Nat) (items : List UInt8) (fault : Nat → ε) :
    Reads room (Get.take items.length fault) (Put.bytes items) items := by
  intro _ _ _ _ done
  cases done
  unfold Get.take
  simp

variable {value : α} {room : Nat}

/-- The second part is the room the first part counts on. -/
theorem bind {spare least : Nat} {first : Get ε α} {next : α → Get ε β} {front rear : Put ε}
    {result : β} (begun : Reads room first front value)
    (finished : Reads spare (next value) rear result) (long : AtLeast least rear)
    (enough : room ≤ least + spare) : Reads spare (first >>= next) (front.andThen rear) result := by
  intro _ _ back follows done
  obtain ⟨_,tail,wroteHead,wroteTail,rfl⟩ := Put.andThen_ok done
  have tailLong : least ≤ tail.length := long _ _ wroteTail
  have roomy : room ≤ (tail ++ back).length := by
    rw [List.length_append]
    omega
  rw [List.append_assoc,Get.bind_of_ok (begun _ _ _ roomy wroteHead),
    finished _ _ _ follows wroteTail,List.length_append,Nat.add_assoc]

variable {get : Get ε α} {put : Put ε}

theorem map (read : Reads room get put value) (change : α → β) :
    Reads room (change <$> get) put (change value) := by
  intro _ _ _ follows done
  rw [← bind_pure_comp,Get.bind_of_ok (read _ _ _ follows done)]
  rfl

theorem result (read : Reads room get put value) (change : α → β) :
    Reads room (get >>= fun found => Pure.pure (change found)) put (change value) := by
  exact read.map change

/-- What is checked before writing may be counted on. -/
theorem given {test : Prop} [Decidable test] {fault : ε}
    (read : test → Reads room get put value) :
    Reads room get ((Put.require test fault).andThen put) value := by
  intro spot _ back follows done
  obtain ⟨_,written,passed,wrote,rfl⟩ := Put.andThen_ok done
  obtain ⟨holds,rfl⟩ := Put.require_ok passed
  exact read holds spot written back follows wrote

theorem times {put : α → Put ε} {count : Nat} (items : List.Vector α count)
    (each : ∀ item ∈ items.toList, Reads 0 get (put item) item) :
    Reads 0 (Get.times get count) (Put.each put items.toList) items := by
  induction items with
  | nil => exact pure 0 _
  | @cons count item items ih =>
    have one : Reads 0 get (put item) item := each item List.mem_cons_self
    have others : Reads 0 (Get.times get count) (Put.each put items.toList) items :=
      ih fun other mem => each other (List.mem_cons_of_mem _ mem)
    exact one.bind (others.map _) (AtLeast.zero _) (Nat.zero_le _)

/-- A scope as long as what was written reads the same. -/
theorem within (read : Reads 0 get put value) {spot : Nat} {items : List UInt8}
    (done : put spot = .ok items) (back : List UInt8) :
    Get.within items.length get ⟨spot,items ++ back⟩ =
      .ok (value,⟨spot + items.length,back⟩) := by
  have inside := read spot items [] (Nat.zero_le _) done
  rw [List.append_nil] at inside
  unfold Get.within
  rw [List.take_left' rfl,inside,List.drop_left' rfl]
  rfl

end Reads

end Astrs.Base
