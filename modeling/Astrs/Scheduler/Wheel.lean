/-
The timing wheel: five levels of 64 slots, cascading down as time goes by.

The table of timers is visited in the order of ids where the source visits a hash map; what
an advance reports is sorted afterwards.  Jitter statistics are left out.
-/

import Mathlib.Data.List.Sort
import Mathlib.Data.Prod.Lex
import Astrs.Base.Ordered
import Astrs.Base.Shelves
import Astrs.Time.Interval

namespace Astrs.Scheduler

open Astrs.Base Astrs.Time

def slotsPerLevel : Nat := 64

def levels : Nat := 5

/-- The milliseconds that one slot of a level spans. -/
def levelWidth : Nat → Nat
  | 0 => 1
  | 1 => 64
  | 2 => 4096
  | 3 => 262144
  | _ => 16777216

def maxCatchupTicksMs : Nat := 65536

def defaultBurstCap : Nat := 1000

abbrev TimerId := Nat

/-- The highest level, from `level` up, whose slots are no wider than the delay. -/
def climb (delay : Nat) : Nat → Nat → Nat
  | 0,level => level
  | fuel + 1,level =>
    if level + 1 < levels ∧ levelWidth (level + 1) ≤ delay then climb delay fuel (level + 1)
    else level

def levelAndSlot (dueMs currentMs : Nat) : Nat × Nat :=
  let delay := max (dueMs - currentMs) 1
  let level := climb delay levels 0
  (level,dueMs / levelWidth level % slotsPerLevel)

/-- Milliseconds are counted in 64 bits. -/
def millisMax : Nat := 18446744073709551615

def ceilMsSinceEpoch (epoch instant : Int) : Nat :=
  min (((instant - epoch).toNat + 999999) / 1000000) millisMax

def floorMsSinceEpoch (epoch instant : Int) : Nat :=
  min ((instant - epoch).toNat / 1000000) millisMax

inductive MissedTickPolicy where
  | burst
  | skip
  deriving DecidableEq

structure TimerSpec where
  interval : TimerInterval
  missedTickPolicy : MissedTickPolicy
  tag : Nat

structure TimerFired where
  id : TimerId
  scheduledAt : Int
  firedAt : Int
  skipped : Nat
  tag : Nat
  deriving DecidableEq

structure TimerEntry where
  interval : TimerInterval
  policy : MissedTickPolicy
  nextDue : Int
  tag : Nat

structure TimerWheel where
  epoch : Int
  currentMs : Nat
  slots : Nat × Nat → List TimerId
  entries : OrderedMap TimerId TimerEntry
  nextId : Nat
  burstCap : Nat

namespace TimerEntry

def event (entry : TimerEntry) (id : TimerId) (now : Int) (skipped : Nat) : TimerFired :=
  { id := id
    scheduledAt := entry.nextDue
    firedAt := now
    skipped := skipped
    tag := entry.tag }

/-- One event for every missed period, as many as the cap allows. -/
def burst (id : TimerId) (now : Int) : Nat → TimerEntry → List TimerFired × TimerEntry
  | 0,entry => ([],entry)
  | left + 1,entry =>
    if entry.nextDue ≤ now then
      let (events,last) :=
        burst id now left { entry with nextDue := entry.interval.nextTick entry.nextDue }
      (entry.event id now 0 :: events,last)
    else ([],entry)

def coalesce (entry : TimerEntry) (id : TimerId) (now : Int) : List TimerFired × TimerEntry :=
  ([entry.event id now (entry.interval.ticksBetween entry.nextDue now)],
    { entry with nextDue := entry.interval.nextTick now })

def fire (entry : TimerEntry) (id : TimerId) (now : Int) (burstCap : Nat) :
    List TimerFired × TimerEntry :=
  match entry.policy with
  | .burst =>
    let (events,caught) := entry.burst id now burstCap
    if caught.nextDue ≤ now then
      let (last,done) := caught.coalesce id now
      (events ++ last,done)
    else (events,caught)
  | .skip => entry.coalesce id now

end TimerEntry

namespace TimerWheel

def withBurstCap (epoch : Int) (burstCap : Nat) : TimerWheel :=
  { epoch := epoch
    currentMs := 0
    slots := fun _ => []
    entries := OrderedMap.empty
    nextId := 0
    burstCap := burstCap }

def new (epoch : Int) : TimerWheel := withBurstCap epoch defaultBurstCap

variable (wheel : TimerWheel)

def dueMs (entry : TimerEntry) : Nat := ceilMsSinceEpoch wheel.epoch entry.nextDue

def push (place : Nat × Nat) (id : TimerId) : TimerWheel :=
  { wheel with slots := Shelves.put wheel.slots place id }

/-- Places an id by its deadline, never at or behind the current position. -/
def scheduleAt (id : TimerId) (due : Int) : TimerWheel :=
  let dueMs := max (ceilMsSinceEpoch wheel.epoch due) (wheel.currentMs + 1)
  wheel.push (levelAndSlot dueMs wheel.currentMs) id

/-- The entry of a timer whose first delivery is the first grid point after now. -/
def TimerSpec.entry (spec : TimerSpec) (now : Int) : TimerEntry :=
  { interval := spec.interval
    policy := spec.missedTickPolicy
    nextDue := spec.interval.nextTick now
    tag := spec.tag }

def register (entry : TimerEntry) : TimerWheel :=
  { wheel with
    nextId := wheel.nextId + 1
    entries := wheel.entries.insert wheel.nextId entry }

def insert (spec : TimerSpec) (now : Int) : TimerId × TimerWheel :=
  let entry := TimerSpec.entry spec now
  (wheel.nextId,(wheel.register entry).scheduleAt wheel.nextId entry.nextDue)

/-- Removes a timer; its id stays in its slot until the slot is processed. -/
def cancel (id : TimerId) : Bool × TimerWheel :=
  ((wheel.entries.get id).isSome,{ wheel with entries := wheel.entries.remove id })

def resolveDue (now : Int) (state : TimerWheel × List TimerFired) (id : TimerId) :
    TimerWheel × List TimerFired :=
  let (wheel,fired) := state
  match wheel.entries.get id with
  | none => (wheel,fired)
  | some entry =>
    if now < entry.nextDue then (wheel.scheduleAt id entry.nextDue,fired)
    else
      let (events,done) := entry.fire id now wheel.burstCap
      ({ wheel with entries := wheel.entries.insert id done }.scheduleAt id done.nextDue,
        fired ++ events)

/-- Places an id again by its exact deadline, as the wheel stands; a cancelled one is dropped. -/
def replace (id : TimerId) : TimerWheel :=
  match wheel.entries.get id with
  | none => wheel
  | some entry => wheel.push (levelAndSlot (wheel.dueMs entry) wheel.currentMs) id

def clearSlot (place : Nat × Nat) : TimerWheel :=
  { wheel with slots := Shelves.clear wheel.slots place }

def cursor (level : Nat) : Nat × Nat := (level,wheel.currentMs / levelWidth level % slotsPerLevel)

def cascadeFrom : Nat → Nat → TimerWheel → TimerWheel
  | 0,_,wheel => wheel
  | fuel + 1,level,wheel =>
    if wheel.currentMs % levelWidth level = 0 then
      let ids := wheel.slots (wheel.cursor level)
      cascadeFrom fuel (level + 1) (ids.foldl replace (wheel.clearSlot (wheel.cursor level)))
    else wheel

def movedTo (ms : Nat) : TimerWheel := { wheel with currentMs := ms }

def tickOneMs (now : Int) (state : TimerWheel × List TimerFired) : TimerWheel × List TimerFired :=
  let (wheel,fired) := state
  let moved := cascadeFrom (levels - 1) 1 (wheel.movedTo (wheel.currentMs + 1))
  let dueNow := moved.slots (moved.cursor 0)
  dueNow.foldl (resolveDue now) (moved.clearSlot (moved.cursor 0),fired)

def walk (now : Int) : Nat → TimerWheel × List TimerFired → TimerWheel × List TimerFired
  | 0,state => state
  | ticks + 1,state => walk now ticks (tickOneMs now state)

def resync (now : Int) (nowMs : Nat) : TimerWheel × List TimerFired :=
  (wheel.entries.entries.map Prod.fst).foldl (resolveDue now)
    ({ wheel.movedTo nowMs with slots := fun _ => [] },[])

def advance (now : Int) : List TimerFired × TimerWheel :=
  let nowMs := floorMsSinceEpoch wheel.epoch now
  if nowMs ≤ wheel.currentMs then ([],wheel)
  else
    let (moved,fired) :=
      if maxCatchupTicksMs < nowMs - wheel.currentMs then wheel.resync now nowMs
      else walk now (nowMs - wheel.currentMs) (wheel,[])
    (fired.insertionSort fun left right =>
      toLex (left.scheduledAt,left.id) ≤ toLex (right.scheduledAt,right.id),moved)

/-- An advance to now stays below the last millisecond, and every registered timer has a tick
after it. -/
def InRange (now : Int) : Prop :=
  floorMsSinceEpoch wheel.epoch now < millisMax ∧
    ∀ timer ∈ wheel.entries.entries, timer.2.interval.Ranged now

instance (now : Int) : Decidable (wheel.InRange now) := inferInstanceAs (Decidable (_ ∧ _))

end TimerWheel

end Astrs.Scheduler
