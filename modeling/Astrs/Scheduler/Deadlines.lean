/-
Runs of the timing wheel: no deadline is missed.

A timer inserted with a stale time may be overdue when it is placed; it is resolved with
the next millisecond.
-/

import Astrs.Scheduler.Placement

namespace Astrs.Scheduler

open Astrs.Base Astrs.Time

instance (place : Nat × Nat) (tick : Nat) : Decidable (Visits place tick) :=
  inferInstanceAs (Decidable (_ ∧ _))

/-- From its place a timer comes to level 0 at its deadline: its slot there is the next
that is processed at that tick, or its slot in a higher level is processed before and
the timer is placed anew. -/
inductive Comes (deadline : Nat) : Nat → Nat × Nat → Prop
  | due {current : Nat} {place : Nat × Nat} (low : place.1 = 0) (later : current < deadline)
      (visits : Visits place deadline)
      (first : ∀ tick, current < tick → tick < deadline → ¬ Visits place tick) :
      Comes deadline current place
  | cascade {current visit : Nat} {place : Nat × Nat} (high : place.1 ≠ 0) (after : current < visit)
      (before : visit ≤ deadline) (visits : Visits place visit)
      (first : ∀ tick, current < tick → tick < visit → ¬ Visits place tick)
      (next : visit < deadline → Comes deadline visit (levelAndSlot deadline visit)) :
      Comes deadline current place

variable {current limit : Nat} {place : Nat × Nat}

/-- The next visit of a level 0 slot less than a cycle away. -/
theorem comes_of_low (low : place.1 = 0) (later : current < limit)
    (slot : place.2 = limit % slotsPerLevel) (near : limit < current + slotsPerLevel) :
    Comes limit current place := by
  have width : levelWidth place.1 = 1 := by
    rw [low]
    rfl
  refine .due low later ⟨?_,?_⟩ ?_
  · rw [width,Nat.mod_one]
  · rw [width,Nat.div_one,slot]
  · rintro tick after before ⟨-,same⟩
    rw [width,Nat.div_one,slot] at same
    unfold slotsPerLevel at same near
    omega

theorem Ahead.comes (ahead : Ahead current limit place) : Comes limit current place := by
  -- every cascade happens later than the last, and none after the deadline
  induction distance : limit - current using Nat.strong_induction_on
    generalizing current place with
  | _ distance ih =>
    by_cases low : place.1 = 0
    · obtain ⟨slot,near⟩ := ahead.fine low
      exact comes_of_low low ahead.later slot near
    · obtain ⟨visit,after,before,visits⟩ := ahead.coarse low
      have some : ∃ tick, current < tick ∧ Visits place tick := ⟨visit,after,visits⟩
      have soonest := Nat.find_min' some ⟨after,visits⟩
      obtain ⟨later,reached⟩ := Nat.find_spec some
      refine .cascade low later (soonest.trans before) reached ?_ ?_
      · intro _ beyond earlier again
        exact Nat.find_min some earlier ⟨beyond,again⟩
      · intro remaining
        exact ih (limit - Nat.find some) (by omega) (levelAndSlot_ahead remaining) rfl

/-- A deadline that has passed is taken up with the next tick. -/
theorem OnTime.comes (onTime : OnTime current limit place) :
    Comes (max limit (current + 1)) current place := by
  rcases onTime with ahead | ⟨passed,next⟩
  · have later := ahead.later
    rw [show max limit (current + 1) = limit by omega]
    exact ahead.comes
  · rw [show max limit (current + 1) = current + 1 by omega,next]
    exact comes_of_low rfl (Nat.lt_succ_self current) rfl (by unfold slotsPerLevel; omega)

theorem OnTime.within (onTime : OnTime current limit place) :
    place.1 < levels ∧ place.2 < slotsPerLevel := by
  rcases onTime with ahead | ⟨-,next⟩
  · exact ⟨ahead.level,ahead.slot⟩
  · rw [next]
    exact ⟨Nat.succ_pos 4,Nat.mod_lt _ (by decide)⟩

/-! ### Calls -/

namespace TimerWheel

inductive Call where
  | insert (spec : TimerSpec) (now : Int)
  | cancel (id : TimerId)
  | advance (now : Int)

def perform (wheel : TimerWheel) : Call → TimerWheel
  | .insert spec now => (wheel.insert spec now).2
  | .cancel id => (wheel.cancel id).2
  | .advance now => (wheel.advance now).2

def performAll (wheel : TimerWheel) (calls : List Call) : TimerWheel := calls.foldl perform wheel

variable {wheel : TimerWheel}

theorem withBurstCap_sound (epoch : Int)
    (burstCap : Nat) : (withBurstCap epoch burstCap).Sound := by
  have empty : ∀ id entry, (withBurstCap epoch burstCap).entries.get id ≠ some entry :=
    fun _ entry found => Option.some_ne_none entry found.symm
  constructor
  · intro id entry found
    exact absurd found (empty id entry)
  · intro id entry found
    exact absurd found (empty id entry)
  · intro _ _ absent
    exact absurd absent List.not_mem_nil
  · exact List.forall_mem_nil _

section

variable (sound : wheel.Sound)
include sound

/-- A new timer is in the hand, and no slot has its id. -/
theorem register_placed (entry : TimerEntry) :
    (wheel.register entry).Placed [wheel.nextId] (OnTime wheel.currentMs) fun _ => True where
  kept := by
    intro id current found
    rcases OrderedMap.insert_some _ found with ⟨rfl,_⟩ | ⟨apart,found⟩
    · refine .inHand List.count_singleton_self ?_ trivial
      intro place
      apply List.count_eq_zero_of_not_mem
      intro mem
      exact absurd (sound.slots place _ mem) (Nat.lt_irrefl _)
    · obtain ⟨_,sits,fits⟩ := (sound.kept id current found).sits
      refine .shelved ?_ sits fits
      rw [List.count_singleton,if_neg]
      simpa using apart
  known := by
    intro id current found
    rcases OrderedMap.insert_some _ found with ⟨rfl,_⟩ | ⟨_,found⟩
    · exact Nat.lt_succ_self _
    · exact Nat.lt_succ_of_lt (sound.known id current found)
  slots := fun place id mem => Nat.lt_succ_of_lt (sound.slots place id mem)
  hand := by
    intro _ mem
    rw [List.mem_singleton.mp mem]
    exact Nat.lt_succ_self _

theorem insert_sound (spec : TimerSpec) (now : Int) : (wheel.insert spec now).2.Sound := by
  unfold insert
  generalize TimerSpec.entry spec now = entry
  have pushed : ((wheel.register entry).scheduleAt wheel.nextId entry.nextDue).Placed []
      (OnTime wheel.currentMs) fun _ => True := by
    apply (register_placed sound entry).push
    intro current found
    change (wheel.entries.insert wheel.nextId entry).get wheel.nextId = some current at found
    rw [OrderedMap.get_insert,if_pos rfl] at found
    cases found
    exact schedule_onTime _ _
  exact pushed.shelved

theorem cancel_sound (id : TimerId) : (wheel.cancel id).2.Sound := by
  have kept : ∀ other entry, (wheel.entries.remove id).get other = some entry →
      wheel.entries.get other = some entry := by
    intro _ _ found
    rw [OrderedMap.get_remove] at found
    split at found
    · cases found
    · exact found
  exact ⟨fun other entry found => sound.kept other entry (kept other entry found),
    fun other entry found => sound.known other entry (kept other entry found),sound.slots,sound.hand⟩

theorem advance_cases {now : Int} (inRange : wheel.InRange now) :
    (floorMsSinceEpoch wheel.epoch now ≤ wheel.currentMs ∧ wheel.advance now = ([],wheel)) ∨
      ∃ state, Arrived now wheel (floorMsSinceEpoch wheel.epoch now) state ∧
        (wheel.advance now).2 = state.1 ∧
        ∀ event, event ∈ (wheel.advance now).1 ↔ event ∈ state.2 := by
  by_cases still : floorMsSinceEpoch wheel.epoch now ≤ wheel.currentMs
  · left
    refine ⟨still,?_⟩
    unfold advance
    rw [if_pos still]
  · right
    have started : wheel.epoch ≤ now := by
      unfold floorMsSinceEpoch at still
      omega
    unfold advance
    dsimp only
    rw [if_neg still]
    split
    · refine ⟨_,resync_arrived sound started inRange (Nat.le_refl _),rfl,?_⟩
      intro _
      exact List.mem_insertionSort _
    · obtain ⟨ticks,distance⟩ : ∃ ticks,
          floorMsSinceEpoch wheel.epoch now - wheel.currentMs = ticks + 1 :=
        ⟨floorMsSinceEpoch wheel.epoch now - wheel.currentMs - 1,by omega⟩
      have position : wheel.currentMs + (ticks + 1) = floorMsSinceEpoch wheel.epoch now := by omega
      have arrived : Arrived now wheel (wheel.currentMs + (ticks + 1))
          (walk now (ticks + 1) (wheel,[])) := by
        apply walk_arrived ticks sound started inRange position.le
        exact List.forall_mem_nil _
      rw [position] at arrived
      rw [distance]
      exact ⟨_,arrived,rfl,fun event => List.mem_insertionSort _⟩

theorem advance_sound {now : Int} (inRange : wheel.InRange now) : (wheel.advance now).2.Sound := by
  rcases advance_cases sound inRange with ⟨-,nothing⟩ | ⟨state,arrived,same,-⟩
  · rw [nothing]
    exact sound
  · rw [same]
    exact arrived.settled.sound

end

def Call.InRange (wheel : TimerWheel) : Call → Prop
  | .advance now => wheel.InRange now
  | _ => True

/-- Every advance of the run is in range. -/
def RunInRange : TimerWheel → List Call → Prop
  | _,[] => True
  | wheel,call :: rest => call.InRange wheel ∧ RunInRange (wheel.perform call) rest

theorem perform_sound {call : Call} (inRange : call.InRange wheel) (sound : wheel.Sound) :
    (wheel.perform call).Sound := by
  cases call with
  | insert spec now => exact insert_sound sound spec now
  | cancel id => exact cancel_sound sound id
  | advance now => exact advance_sound sound inRange

theorem performAll_sound {calls : List Call} (inRange : RunInRange wheel calls)
    (sound : wheel.Sound) : (wheel.performAll calls).Sound := by
  induction calls generalizing wheel with
  | nil => exact sound
  | cons call _ ih => exact ih inRange.2 (perform_sound inRange.1 sound)

end TimerWheel

/-- The wheel after a run from a new one. -/
def wheelAfter (epoch : Int) (burstCap : Nat) (calls : List TimerWheel.Call) : TimerWheel :=
  (TimerWheel.withBurstCap epoch burstCap).performAll calls

/-- In every run whose advances are in range: each registered timer sits in one slot, once, and
comes to level 0 at its deadline or, when that has passed, with the next tick; what an advance
reports are registered timers, scheduled no later than now; and an advance that moves the
wheel leaves no deadline at or before its own position. -/
theorem no_deadline_left_behind {epoch : Int} {burstCap : Nat} {calls : List TimerWheel.Call}
    (inRange : (TimerWheel.withBurstCap epoch burstCap).RunInRange calls) :
    (∀ id entry, (wheelAfter epoch burstCap calls).entries.get id = some entry →
      ∃ place : Nat × Nat, place.1 < levels ∧ place.2 < slotsPerLevel ∧
        Shelves.SitsAt (wheelAfter epoch burstCap calls).slots id place ∧
        Comes (max ((wheelAfter epoch burstCap calls).dueMs entry)
            ((wheelAfter epoch burstCap calls).currentMs + 1))
          (wheelAfter epoch burstCap calls).currentMs place) ∧
      ∀ now, (wheelAfter epoch burstCap calls).InRange now →
        (∀ event ∈ ((wheelAfter epoch burstCap calls).advance now).1,
          event.scheduledAt ≤ event.firedAt ∧ event.firedAt = now ∧
            (((wheelAfter epoch burstCap calls).advance now).2.entries.get event.id).isSome) ∧
        ((wheelAfter epoch burstCap calls).currentMs <
            floorMsSinceEpoch (wheelAfter epoch burstCap calls).epoch now →
          ∀ id entry, ((wheelAfter epoch burstCap calls).advance now).2.entries.get id = some entry →
            floorMsSinceEpoch (wheelAfter epoch burstCap calls).epoch now <
              ((wheelAfter epoch burstCap calls).advance now).2.dueMs entry) := by
  have sound : (wheelAfter epoch burstCap calls).Sound :=
    TimerWheel.performAll_sound inRange (TimerWheel.withBurstCap_sound epoch burstCap)
  generalize wheelAfter epoch burstCap calls = wheel at sound
  constructor
  · intro id entry found
    obtain ⟨place,sits,onTime⟩ := (sound.kept id entry found).sits
    exact ⟨place,onTime.within.1,onTime.within.2,sits,onTime.comes⟩
  · intro now next
    rcases TimerWheel.advance_cases sound next with ⟨still,nothing⟩ | ⟨state,arrived,same,events⟩
    · rw [nothing]
      constructor
      · exact List.forall_mem_nil _
      · intro _
        omega
    · rw [same]
      constructor
      · intro event member
        obtain ⟨reported,registered⟩ := arrived.reports event ((events event).mp member)
        exact ⟨reported.fired ▸ reported.scheduled,reported.fired,registered⟩
      · intro _ id entry found
        obtain ⟨_,-,ahead⟩ := (arrived.settled.kept id entry found).sits
        rw [arrived.table.currentMs] at ahead
        exact ahead.later

def fiveMilliseconds : TimerSpec :=
  { interval := ⟨5000000,0,by decide,zero_started⟩
    missedTickPolicy := .burst
    tag := 0 }

def threeIn : TimerWheel := wheelAfter 0 8 [.insert fiveMilliseconds 0,.advance 3000000]

theorem threeIn_inRange : (TimerWheel.withBurstCap 0 8).RunInRange
    [.insert fiveMilliseconds 0,.advance 3000000] :=
  have inserted : ((TimerWheel.withBurstCap 0 8).insert fiveMilliseconds 0).2.InRange 3000000 := by
    decide +kernel
  ⟨trivial,inserted,trivial⟩

/-- The deadline of a timer is past the position after an advance from three milliseconds to
seven. -/
theorem five_milliseconds_on_time :
    threeIn.currentMs < floorMsSinceEpoch threeIn.epoch 7000000 ∧
      ((threeIn.advance 7000000).2.entries.get 0).isSome ∧
      ∀ id entry, (threeIn.advance 7000000).2.entries.get id = some entry →
        floorMsSinceEpoch threeIn.epoch 7000000 < (threeIn.advance 7000000).2.dueMs entry := by
  have moves : threeIn.currentMs < floorMsSinceEpoch threeIn.epoch 7000000 := by decide +kernel
  have next : threeIn.InRange 7000000 := by decide +kernel
  refine ⟨moves,by decide +kernel,?_⟩
  unfold threeIn at moves next ⊢
  exact ((no_deadline_left_behind threeIn_inRange).2 7000000 next).2 moves

def staleInsert : TimerWheel := wheelAfter 0 8 [.advance 10000000,.insert fiveMilliseconds 0]

/-- A timer inserted with a stale time is overdue, and an advance that does not move the
wheel leaves it so. -/
theorem stale_insert_overdue : ∃ id entry,
    (staleInsert.advance 10000000).2.entries.get id = some entry ∧
      (staleInsert.advance 10000000).2.dueMs entry ≤ floorMsSinceEpoch 0 10000000 := by
  have overdue : ((staleInsert.advance 10000000).2.entries.get 0).any
      (fun entry => (staleInsert.advance 10000000).2.dueMs entry ≤ floorMsSinceEpoch 0 10000000) := by
    decide +kernel
  obtain ⟨entry,registered,late⟩ := (Option.any_eq_true _ _).mp overdue
  exact ⟨0,entry,registered,of_decide_eq_true late⟩

end Astrs.Scheduler
