/-
What each side of a match remembers about the other.

The reader's proxy of a writer keeps a watermark: everything up to it has arrived
or was declared irrelevant.  What lies above it is held in two sets until the hole
below closes.
-/

import Astrs.Base.Ordered
import Astrs.Rtps.Message

namespace Astrs.Rtps

open Astrs.Base Astrs.Cdr

structure Locator where
  kind : Int
  port : Nat
  address : BitVec 128
  deriving DecidableEq

def maxRequested : Nat := 4096

def maxTracked : Nat := 65536

def i32Min : Int := -2147483648

def i32Max : Int := 2147483647

def nextCount (count : Int) : Int := min (count + 1) i32Max

structure ReaderProxy where
  guid : Guid
  unicast : List Locator
  multicast : List Locator
  reliable : Bool
  wantsHistory : Bool
  ackedThrough : Int
  highestSent : Int
  requested : OrderedSet Int
  lastAcknackCount : Int
  active : Bool

namespace ReaderProxy

def new (guid : Guid) (locators : List Locator) (reliable : Bool) : ReaderProxy :=
  { guid := guid
    unicast := locators
    multicast := []
    reliable := reliable
    wantsHistory := true
    ackedThrough := 0
    highestSent := 0
    requested := OrderedSet.empty
    lastAcknackCount := i32Min
    active := true }

variable (proxy : ReaderProxy)

def locators : List Locator := proxy.unicast ++ proxy.multicast

def setLocators (unicast multicast : List Locator) : ReaderProxy :=
  { proxy with unicast := unicast, multicast := multicast }

def recordSent (number : Int) : ReaderProxy :=
  { proxy with
    highestSent := if proxy.highestSent < number then number else proxy.highestSent
    requested := proxy.requested.remove number }

/-- Notes the numbers a reader misses, until the table is full. -/
def requestMissing : List Int → ReaderProxy → ReaderProxy
  | [],proxy => proxy
  | number :: rest,proxy =>
    if maxRequested ≤ proxy.requested.len then proxy
    else if proxy.ackedThrough < number then
      requestMissing rest { proxy with requested := proxy.requested.insert number }
    else requestMissing rest proxy

def assumeAckedThrough (number : Int) : ReaderProxy :=
  if proxy.ackedThrough < number then
    { proxy with
      ackedThrough := number
      requested := proxy.requested.retain fun held => decide (number < held) }
  else proxy

def acceptAcknack (acknack : AckNack) : Bool × ReaderProxy :=
  if acknack.count ≤ proxy.lastAcknackCount then (false,proxy)
  else
    let heard := { proxy with lastAcknackCount := acknack.count, active := true }
    (true,requestMissing acknack.missing (heard.assumeAckedThrough acknack.acknowledgedThrough))

def requestResend (number : Int) : ReaderProxy :=
  if proxy.ackedThrough < number ∧ proxy.requested.len < maxRequested then
    { proxy with requested := proxy.requested.insert number }
  else proxy

def forgetRequested (number : Int) : ReaderProxy :=
  { proxy with requested := proxy.requested.remove number }

def dropRequestedBelow (firstAvailable : Int) : ReaderProxy :=
  { proxy with requested := proxy.requested.retain fun number => decide (firstAvailable ≤ number) }

def skipHistoryThrough (number : Int) : ReaderProxy :=
  { proxy with
    highestSent := if proxy.highestSent < number then number else proxy.highestSent
  }.assumeAckedThrough number

end ReaderProxy

/-! ### The reader's view of a writer -/

structure WriterProxy where
  guid : Guid
  unicast : List Locator
  multicast : List Locator
  reliable : Bool
  firstAvailable : Int
  lastAvailable : Int
  received : OrderedSet Int
  irrelevant : OrderedSet Int
  ackedThrough : Int
  acknackCount : Int
  lastHeartbeatCount : Int
  heartbeatPending : Bool
  active : Bool

namespace WriterProxy

def new (guid : Guid) (locators : List Locator) (reliable : Bool) : WriterProxy :=
  { guid := guid
    unicast := locators
    multicast := []
    reliable := reliable
    firstAvailable := 1
    lastAvailable := 0
    received := OrderedSet.empty
    irrelevant := OrderedSet.empty
    ackedThrough := 0
    acknackCount := 0
    lastHeartbeatCount := i32Min
    heartbeatPending := false
    active := true }

variable (proxy : WriterProxy)

def locators : List Locator := proxy.unicast ++ proxy.multicast

def setLocators (unicast multicast : List Locator) : WriterProxy :=
  { proxy with unicast := unicast, multicast := multicast }

def isSatisfied (number : Int) : Bool :=
  decide (number ≤ proxy.ackedThrough) || proxy.received.contains number ||
    proxy.irrelevant.contains number

def isCaughtUp : Bool := decide (proxy.lastAvailable ≤ proxy.ackedThrough)

/-- One step of the watermark.  A number that arrived is not looked up among the
irrelevant ones. -/
def advanceOnce : Option WriterProxy :=
  let next := SequenceNumber.next proxy.ackedThrough
  if proxy.received.contains next then
    some { proxy with received := proxy.received.remove next, ackedThrough := next }
  else if proxy.irrelevant.contains next then
    some { proxy with irrelevant := proxy.irrelevant.remove next, ackedThrough := next }
  else none

def advanceFor : Nat → WriterProxy → WriterProxy
  | 0,proxy => proxy
  | fuel + 1,proxy =>
    match proxy.advanceOnce with
    | none => proxy
    | some next => advanceFor fuel next

/-- Walks the watermark over everything satisfied.  Every step takes a number out of
one of the sets. -/
def advance : WriterProxy := advanceFor (proxy.received.len + proxy.irrelevant.len) proxy

def noteAvailable (number : Int) : WriterProxy :=
  { proxy with
    lastAvailable := if proxy.lastAvailable < number then number else proxy.lastAvailable }

/-- Records that a number arrived; true when it is new. -/
def acceptData (number : Int) : Bool × WriterProxy :=
  let heard := { proxy with active := true }
  if proxy.reliable = false then
    if number ≤ proxy.ackedThrough then (false,heard)
    else
      (true,noteAvailable
        { heard with
          ackedThrough := number
          received := OrderedSet.empty
          irrelevant := OrderedSet.empty } number)
  else if number ≤ proxy.ackedThrough ∨ proxy.received.contains number then (false,heard)
  else if maxTracked ≤ proxy.received.len then (false,heard)
  else (true,(noteAvailable { heard with received := proxy.received.insert number } number).advance)

/-- What a writer has dropped is irrelevant by definition. -/
def skipBelow (firstSn : Int) : WriterProxy :=
  if proxy.firstAvailable < firstSn then
    let through := SequenceNumber.previous firstSn
    if proxy.ackedThrough < through then
      { proxy with
        firstAvailable := firstSn
        ackedThrough := through
        received := proxy.received.retain fun number => decide (through < number)
        irrelevant := proxy.irrelevant.retain fun number => decide (through < number) }
    else { proxy with firstAvailable := firstSn }
  else proxy

def acceptHeartbeat (heartbeat : Heartbeat) : Bool × WriterProxy :=
  if heartbeat.count ≤ proxy.lastHeartbeatCount then (false,proxy)
  else
    let heard := { proxy with lastHeartbeatCount := heartbeat.count, active := true }
    let moved := ((heard.skipBelow heartbeat.firstSn).noteAvailable heartbeat.lastSn).advance
    (true,
      if heartbeat.isFinal = false ∨ moved.isCaughtUp = false then
        { moved with heartbeatPending := true }
      else moved)

/-- Notes numbers as irrelevant, until the table is full. -/
def noteIrrelevant : List Int → WriterProxy → WriterProxy
  | [],proxy => proxy
  | number :: rest,proxy =>
    if number ≤ proxy.ackedThrough ∨ proxy.irrelevant.contains number then
      noteIrrelevant rest proxy
    else if maxTracked ≤ proxy.irrelevant.len then proxy
    else
      noteIrrelevant rest
        (noteAvailable { proxy with irrelevant := proxy.irrelevant.insert number } number)

def acceptGap (gap : Gap) : WriterProxy :=
  (noteIrrelevant gap.irrelevant { proxy with active := true }).advance

def nameMissing (set : SequenceNumberSet) (number : Int) : SequenceNumberSet :=
  if proxy.isSatisfied number then set
  else
    match set.insert number with
    | .ok marked => marked
    | .error _ => set

/-- The set an `ACKNACK` carries: one past the watermark, and what is missing from
there on. -/
def acknackState : SequenceNumberSet :=
  let base := SequenceNumber.next proxy.ackedThrough
  let last := min (min (base + maxSetBits) i64Max) (min (proxy.lastAvailable + 1) i64Max)
  (numbersFrom base (last - base).toNat).foldl proxy.nameMissing (SequenceNumberSet.new base)

def takeAcknack (readerId : EntityId) : AckNack × WriterProxy :=
  let answered :=
    { proxy with heartbeatPending := false, acknackCount := nextCount proxy.acknackCount }
  let state := proxy.acknackState
  ({ isFinal := state.isEmpty
     readerId := readerId
     writerId := proxy.guid.entityId
     readerSnState := state
     count := answered.acknackCount },answered)

def nextAcknackCount : Int := nextCount proxy.acknackCount

def clearHeartbeatPending : WriterProxy :=
  { proxy with heartbeatPending := false }

end WriterProxy

end Astrs.Rtps
