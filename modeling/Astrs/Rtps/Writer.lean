/-
The RTPS writer: its history, its matched readers, and what it puts on the wire.

A call that can fail returns its result and the writer as it left it.  A datagram
is kept as its message, and is only built when the message has an encoding.  Time
is counted in milliseconds.
-/

import Astrs.Rtps.Proxy
import Astrs.Rtps.Fragment

namespace Astrs.Rtps

open Astrs.Base Astrs.Cdr

def datagramOverhead : Nat := 20 + 16 + 12 + 24

def fragmentDatagramOverhead : Nat := 20 + 16 + 12 + (4 + dataFragPreludeLen)

def minProtectedFragmentSize : Nat := 64

def maxSamplesPerProduce : Nat := 256

/-- What submessage protection means for the packing: whether there is any, and the
octets it costs. -/
structure EndpointSecurity where
  isProtecting : Bool
  overhead : Nat
  deriving DecidableEq

def EndpointSecurity.none : EndpointSecurity := { isProtecting := false, overhead := 0 }

structure WriterQos where
  reliable : Bool
  replaysHistory : Bool
  history : HistoryQos
  resourceLimits : ResourceLimitsQos
  lifespan : Option Nat
  deriving DecidableEq

structure WriterConfig where
  guid : Guid
  qos : WriterQos
  heartbeatPeriod : Nat
  fragmentSize : Nat
  datagramBudget : Nat
  fragmentationThreshold : Nat
  security : EndpointSecurity
  deriving DecidableEq

namespace WriterConfig

def effectiveBudget (config : WriterConfig) : Nat :=
  config.datagramBudget - config.security.overhead

def effectiveFragmentSize (config : WriterConfig) : Nat :=
  if config.security.isProtecting = false then config.fragmentSize
  else
    let room := config.effectiveBudget - fragmentDatagramOverhead
    min config.fragmentSize (max (min room 65535) minProtectedFragmentSize)

def effectiveThreshold (config : WriterConfig) : Nat :=
  let room := config.effectiveBudget - datagramOverhead
  if room < config.fragmentationThreshold then room else config.fragmentationThreshold

end WriterConfig

/-! ### Packing -/

structure Outbound where
  locators : List Locator
  message : Message

def Outbound.send (locators : List Locator) (message : Message) : Except BehaviorError Outbound :=
  match message.encode with
  | .ok _ => .ok { locators := locators, message := message }
  | .error reason => .error (.wire reason)

structure MessageBuilder where
  submessages : List Submessage
  budget : Nat
  used : Nat

namespace MessageBuilder

def withBudget (budget : Nat) : MessageBuilder :=
  { submessages := [], budget := budget, used := headerLen }

def remaining (builder : MessageBuilder) : Nat := builder.budget - builder.used

def push (builder : MessageBuilder) (submessage : Submessage) : MessageBuilder :=
  { builder with
    submessages := builder.submessages ++ [submessage]
    used := builder.used + submessage.serializedLen }

def fits (builder : MessageBuilder) (submessage : Submessage) : Bool :=
  decide (submessage.serializedLen ≤ builder.remaining)

end MessageBuilder

structure RtpsWriter where
  config : WriterConfig
  cache : HistoryCache
  lastChange : Int
  heartbeatCount : Int
  matched : OrderedMap Guid ReaderProxy
  lastHeartbeatAt : Option Nat

/-- What a run of datagrams to one reader is addressed with. -/
structure Addressee where
  readerId : EntityId
  readerPrefix : GuidPrefix
  locators : List Locator

def ReaderProxy.addressee (proxy : ReaderProxy) : Addressee :=
  { readerId := proxy.guid.entityId
    readerPrefix := proxy.guid.guidPrefix
    locators := proxy.locators }

/-- The inline QoS of a disposal or an unregistration. -/
def statusInfoQos (kind : ChangeKind) : Option ParameterList :=
  if kind.carriesData then none else some [{ id := 0x0071, value := kind.statusInfo }]

namespace RtpsWriter

def new (config : WriterConfig) : RtpsWriter :=
  { config := config
    cache := HistoryCache.new config.qos.history config.qos.resourceLimits config.qos.lifespan
    lastChange := 0
    heartbeatCount := 0
    matched := OrderedMap.empty
    lastHeartbeatAt := none }

variable (writer : RtpsWriter)

def header : Header := { guidPrefix := writer.config.guid.guidPrefix }

def message (submessages : List Submessage) : Message :=
  { header := writer.header, submessages := submessages }

def dataFor (change : CacheChange) (readerId : EntityId) : Data :=
  { readerId := readerId
    writerId := writer.config.guid.entityId
    writerSn := change.sequenceNumber
    inlineQos := statusInfoQos change.kind
    payload :=
      if change.kind.carriesData then .data change.payload
      else if change.payload = [] then .none
      else .key change.payload }

def newBuilder (readerPrefix : GuidPrefix) : MessageBuilder :=
  (MessageBuilder.withBudget writer.config.effectiveBudget).push
    (.infoDestination { guidPrefix := readerPrefix })

/-- The datagrams built so far, the one being packed, and the timestamp in force in it. -/
structure Packing where
  outbound : List Outbound
  builder : MessageBuilder
  lastTimestamp : Option Time

/-- Sends what the builder holds beyond the destination, and starts a fresh one. -/
def flush (reader : Addressee) (packing : Packing) : Except BehaviorError Packing :=
  let builder := packing.builder
  if builder.submessages.length ≤ 1 then .ok packing
  else do
    let sent ← Outbound.send reader.locators (writer.message builder.submessages)
    return { packing with
      outbound := packing.outbound ++ [sent]
      builder := (MessageBuilder.withBudget (builder.remaining + builder.used)).push
        (.infoDestination { guidPrefix := reader.readerPrefix }) }

def flushStamped (reader : Addressee) (packing : Packing) : Except BehaviorError Packing := do
  return { ← writer.flush reader packing with lastTimestamp := none }

def pushed (packing : Packing) (submessage : Submessage) : Packing :=
  { packing with builder := packing.builder.push submessage }

def fragmentDatagrams (change : CacheChange) (reader : Addressee) :
    Except BehaviorError (List Outbound) := do
  let fragments ← fragmentSample reader.readerId writer.config.guid.entityId change.sequenceNumber
    change.payload writer.config.effectiveFragmentSize writer.config.effectiveBudget
  fragments.mapM fun fragment =>
    Outbound.send reader.locators (writer.message
      ([.infoDestination { guidPrefix := reader.readerPrefix }] ++
        (change.sourceTimestamp.map fun time => .infoTimestamp { timestamp := some time }).toList ++
          [.dataFrag fragment]))

def stamp (reader : Addressee) (change : CacheChange) (packing : Packing) :
    Except BehaviorError Packing :=
  match change.sourceTimestamp with
  | none => .ok packing
  | some time =>
    if some time = packing.lastTimestamp then .ok packing
    else
      let info : Submessage := .infoTimestamp { timestamp := some time }
      if packing.builder.fits info then
        .ok { pushed packing info with lastTimestamp := some time }
      else do
        let flushed ← writer.flush reader packing
        return { pushed flushed info with lastTimestamp := some time }

def packData (reader : Addressee) (change : CacheChange) (packing : Packing) :
    Except BehaviorError Packing :=
  let data : Submessage := .data (writer.dataFor change reader.readerId)
  if packing.builder.fits data then .ok (pushed packing data)
  else do
    let flushed ← writer.flushStamped reader packing
    let stamped :=
      match change.sourceTimestamp with
      | none => flushed
      | some time =>
        { pushed flushed (.infoTimestamp { timestamp := some time }) with
          lastTimestamp := some time }
    return pushed stamped data

/-- One change: fragments own their datagrams, a whole sample is packed.  A body that
is no multiple of four ends its datagram. -/
def packChange (reader : Addressee) (change : CacheChange) (packing : Packing) :
    Except BehaviorError Packing :=
  if writer.config.effectiveThreshold < change.payload.length then do
    let flushed ← writer.flushStamped reader packing
    let fragments ← writer.fragmentDatagrams change reader
    return { flushed with outbound := flushed.outbound ++ fragments }
  else do
    let stamped ← writer.stamp reader change packing
    let packed ← writer.packData reader change stamped
    if (Submessage.data (writer.dataFor change reader.readerId)).bodyLen % 4 ≠ 0 ∧
        1 < packed.builder.submessages.length then
      writer.flushStamped reader packed
    else return packed

def packAll (writer : RtpsWriter) (reader : Addressee) :
    List Int → Packing → Except BehaviorError Packing
  | [],packing => .ok packing
  | number :: rest,packing =>
    match writer.cache.get number with
    | none => packAll writer reader rest packing
    | some change => do
      packAll writer reader rest (← writer.packChange reader change packing)

def datagramsFor (numbers : List Int) (reader : Addressee) :
    Except BehaviorError (List Outbound) := do
  let packed ← writer.packAll reader numbers
    { outbound := [], builder := writer.newBuilder reader.readerPrefix, lastTimestamp := none }
  return (← writer.flush reader packed).outbound

def gapBits (base : Int) : List Int → SequenceNumberSet → Except RtpsError SequenceNumberSet
  | [],set => .ok set
  | number :: rest,set =>
    if maxSetBits ≤ number - base then .ok set
    else do gapBits base rest (← set.insert number)

/-- The `GAP` that names exactly the given numbers, as far as they fit. -/
def gapFor (numbers : List Int) (reader : Addressee) : Except BehaviorError Outbound :=
  let start := numbers.head?.getD 1
  let base := start + 1
  match gapBits base numbers.tail (SequenceNumberSet.new base) with
  | .error reason => .error (.wire reason)
  | .ok gapList =>
    let gap : Gap :=
      { readerId := reader.readerId
        writerId := writer.config.guid.entityId
        gapStart := start
        gapList := gapList }
    match gap.validate with
    | .error reason => .error (.wire reason)
    | .ok () =>
      Outbound.send reader.locators (writer.message
        [.infoDestination { guidPrefix := reader.readerPrefix },.gap gap])

end RtpsWriter

namespace RtpsWriter

variable (writer : RtpsWriter)

def isReliable : Bool := writer.config.qos.reliable

/-- The lowest number held, or one past the last when nothing is. -/
def firstAvailable : Int := writer.cache.minSequenceNumber.getD (writer.lastChange + 1)

variable (proxy : ReaderProxy)

def replaysHistoryTo : Bool := writer.config.qos.replaysHistory && proxy.wantsHistory

def setProxy : RtpsWriter :=
  { writer with matched := writer.matched.insert proxy.guid proxy }

def matchReader : RtpsWriter :=
  match writer.matched.get proxy.guid with
  | some existing => writer.setProxy (existing.setLocators proxy.locators [])
  | none =>
    if writer.replaysHistoryTo proxy then writer.setProxy proxy
    else writer.setProxy (proxy.skipHistoryThrough writer.lastChange)

def unmatchReader (guid : Guid) : RtpsWriter :=
  { writer with matched := writer.matched.remove guid }

def writeChange (payload : Bytes) (sourceTimestamp : Option Time) (kind : ChangeKind)
    (handle : InstanceHandle) (now : Nat) : Except BehaviorError Int × RtpsWriter :=
  if maxReassemblySample < payload.length then
    (.error (.sampleTooLarge payload.length maxReassemblySample),writer)
  else
    let number := writer.lastChange + 1
    match writer.cache.insert
      { sequenceNumber := number
        kind := kind
        instanceHandle := handle
        payload := payload
        sourceTimestamp := sourceTimestamp
        writtenAt := now } with
    | .error failure => (.error failure,writer)
    | .ok cache => (.ok number,{ writer with cache := cache, lastChange := number })

def write (payload : Bytes) (sourceTimestamp : Option Time) (now : Nat) :
    Except BehaviorError Int × RtpsWriter :=
  writer.writeChange payload sourceTimestamp .alive InstanceHandle.nil now

def forget (number : Int) : RtpsWriter :=
  { writer with cache := writer.cache.remove number }

def expire (writer : RtpsWriter) (now : Nat) : RtpsWriter :=
  { writer with cache := writer.cache.expire now }

def awaited : List ReaderProxy :=
  writer.matched.values.filter fun proxy => proxy.reliable && proxy.active

def ackedByAll : Option Int := (writer.awaited.map ReaderProxy.ackedThrough).min?

def reclaim : RtpsWriter :=
  if writer.config.qos.history.retained.isSome ∨ writer.config.qos.replaysHistory then writer
  else
    match writer.ackedByAll with
    | none => writer
    | some watermark => { writer with cache := writer.cache.dropThrough watermark }

def onAcknack (reader : Guid) (acknack : AckNack) : Bool × RtpsWriter :=
  match writer.matched.get reader with
  | none => (false,writer)
  | some proxy =>
    match proxy.acceptAcknack acknack with
    | (false,_) => (false,writer)
    | (true,held) =>
      (true,{ writer with
        matched := writer.matched.insert reader (held.dropRequestedBelow writer.firstAvailable) })

/-- A fragment request is answered with the whole sample. -/
def onNackFrag (reader : Guid) (nack : NackFrag) : Bool × RtpsWriter :=
  match writer.matched.get reader with
  | none => (false,writer)
  | some proxy =>
    if writer.cache.contains nack.writerSn then
      (true,{ writer with
        matched := writer.matched.insert reader (proxy.requestResend nack.writerSn) })
    else (false,writer)

/-- The numbers to look at for one reader: what it asked for above its watermark, then
what it has not been sent, `maxSamplesPerProduce` at most. -/
def wanted : List Int :=
  let floor := max proxy.highestSent proxy.ackedThrough
  let repairs := proxy.requested.elems.filter fun number => decide (proxy.ackedThrough < number)
  let fresh := numbersFrom (floor + 1)
    (min (writer.lastChange - floor).toNat (maxSamplesPerProduce - repairs.length))
  (OrderedSet.ofList (repairs ++ fresh)).elems.take maxSamplesPerProduce

def sendable : List Int := (writer.wanted proxy).filter writer.cache.contains

def missing : List Int := (writer.wanted proxy).filter fun number =>
    !writer.cache.contains number && decide (number ≤ writer.lastChange)

/-- The proxy after a produce: nobody acknowledges for a best-effort reader, so its
watermark is what it was sent. -/
def served : ReaderProxy :=
  let sent := (writer.sendable proxy).foldl ReaderProxy.recordSent proxy
  let told := (writer.missing proxy).foldl ReaderProxy.forgetRequested sent
  if proxy.reliable then told else told.assumeAckedThrough told.highestSent

def produceFor (reader : Guid) : Except BehaviorError (List Outbound) × RtpsWriter :=
  match writer.matched.get reader with
  | none => (.ok [],writer)
  | some proxy =>
    if proxy.active = false ∨ proxy.locators = [] then (.ok [],writer)
    else
      match writer.datagramsFor (writer.sendable proxy) proxy.addressee with
      | .error failure => (.error failure,writer)
      | .ok datagrams =>
        let after :=
          { writer with matched := writer.matched.insert reader (writer.served proxy) }
        if proxy.reliable ∧ writer.missing proxy ≠ [] then
          match writer.gapFor (writer.missing proxy) proxy.addressee with
          | .error failure => (.error failure,writer)
          | .ok gap => (.ok (datagrams ++ [gap]),after)
        else (.ok datagrams,after)

def produceAll : List Guid → RtpsWriter → Except BehaviorError (List Outbound) × RtpsWriter
  | [],writer => (.ok [],writer)
  | reader :: rest,writer =>
    match writer.produceFor reader with
    | (.error failure,after) => (.error failure,after)
    | (.ok datagrams,after) =>
      match produceAll rest after with
      | (.error failure,last) => (.error failure,last)
      | (.ok more,last) => (.ok (datagrams ++ more),last)

def shouldHeartbeat (now : Nat) : Bool :=
  if writer.isReliable = false ∨ writer.matched.entries = [] then false
  else
    match writer.lastHeartbeatAt with
    | none => true
    | some last => decide (writer.config.heartbeatPeriod ≤ now - last)

def heartbeatFor (liveliness : Bool) (count : Int) (proxy : ReaderProxy) : Heartbeat :=
  { isFinal := liveliness || decide (writer.lastChange ≤ proxy.ackedThrough)
    liveliness := liveliness
    readerId := proxy.guid.entityId
    writerId := writer.config.guid.entityId
    firstSn := writer.firstAvailable
    lastSn := writer.lastChange
    count := count }

def produceHeartbeat (now : Nat) (liveliness : Bool) :
    Except BehaviorError (List Outbound) × RtpsWriter :=
  if writer.isReliable = false then (.ok [],writer)
  else
    let count := nextCount writer.heartbeatCount
    let addressed := writer.awaited.filter fun proxy => !proxy.locators.isEmpty
    (addressed.mapM fun proxy =>
      Outbound.send proxy.locators (writer.message
        [.infoDestination { guidPrefix := proxy.guid.guidPrefix },
          .heartbeat (writer.heartbeatFor liveliness count proxy)]),
      { writer with heartbeatCount := count, lastHeartbeatAt := some now })

def forceHeartbeat (now : Nat) : Except BehaviorError (List Outbound) × RtpsWriter :=
  writer.produceHeartbeat now false

def assertLiveliness (now : Nat) : Except BehaviorError (List Outbound) × RtpsWriter :=
  writer.produceHeartbeat now true

/-- One held change, sent outside the cadence. -/
def announce (number : Int) (readerId : EntityId) (targets : List Locator) :
    Except BehaviorError (Option Outbound) :=
  match writer.cache.get number with
  | none => .ok none
  | some change =>
    if targets = [] then .ok none
    else do
      let sent ← Outbound.send targets (writer.message
        ((change.sourceTimestamp.map fun time => .infoTimestamp { timestamp := some time }).toList ++
          [.data (writer.dataFor change readerId)]))
      return some sent

def produce (now : Nat) : Except BehaviorError (List Outbound) × RtpsWriter :=
  match produceAll (writer.matched.entries.map Prod.fst) writer with
  | (.error failure,after) => (.error failure,after)
  | (.ok datagrams,after) =>
    if after.shouldHeartbeat now then
      match after.produceHeartbeat now false with
      | (.error failure,last) => (.error failure,last)
      | (.ok heartbeats,last) => (.ok (datagrams ++ heartbeats),last)
    else (.ok datagrams,after)

end RtpsWriter

end Astrs.Rtps
