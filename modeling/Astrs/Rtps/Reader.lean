/-
The RTPS reader: its matched writers, reassembly, and the samples it hands out.

`delivered` is a history variable: every sample the reader has queued, in order,
whether or not the application took it or the queue dropped it.
-/

import Astrs.Rtps.Writer

namespace Astrs.Rtps

open Astrs.Base Astrs.Cdr

def maxUntakenSamples : Nat := 8192

structure ReaderConfig where
  guid : Guid
  history : HistoryQos
  isStateless : Bool
  deriving DecidableEq

structure Sample where
  writer : Guid
  sequenceNumber : Int
  payload : Bytes
  sourceTimestamp : Option Time
  receivedAt : Nat
  kind : ChangeKind
  deriving DecidableEq

structure RtpsReader where
  config : ReaderConfig
  matched : OrderedMap Guid WriterProxy
  reassembler : Reassembler
  ready : List Sample
  fragmentProgress : OrderedMap (Guid ×ₗ Int) Nat
  delivered : List Sample

def payloadKind (data : Data) : ChangeKind :=
  let status := (data.inlineQos.getD []).find? fun parameter => parameter.id % 16384 == 0x0071
  match status with
  | some parameter =>
    if 4 ≤ parameter.value.length then ChangeKind.fromStatusInfo (parameter.value.take 4)
    else
      match data.payload with
      | .data _ => .alive
      | _ => .notAliveDisposed
  | none =>
    match data.payload with
    | .data _ => .alive
    | _ => .notAliveDisposed

namespace RtpsReader

def new (config : ReaderConfig) : RtpsReader :=
  { config := config
    matched := OrderedMap.empty
    reassembler := Reassembler.new
    ready := []
    fragmentProgress := OrderedMap.empty
    delivered := [] }

variable (reader : RtpsReader)

def setProxy (proxy : WriterProxy) : RtpsReader :=
  { reader with matched := reader.matched.insert proxy.guid proxy }

def matchWriter (proxy : WriterProxy) : RtpsReader :=
  match reader.matched.get proxy.guid with
  | some existing => reader.setProxy (existing.setLocators proxy.locators [])
  | none => reader.setProxy proxy

def addressesMe (readerId : EntityId) : Bool :=
  readerId.isUnknown || readerId == reader.config.guid.entityId

def acquaint (writer : Guid) : RtpsReader :=
  if reader.config.isStateless = false ∨ (reader.matched.get writer).isSome then reader
  else reader.setProxy (WriterProxy.new writer [] false)

/-- Queues a sample and drops the oldest ones beyond the depth. -/
def deliver (sample : Sample) : RtpsReader :=
  let depth := max 1 (min (reader.config.history.retained.getD maxUntakenSamples) maxUntakenSamples)
  let queued := reader.ready ++ [sample]
  { reader with
    ready := queued.drop (queued.length - depth)
    delivered := reader.delivered ++ [sample] }

def onData (source : GuidPrefix) (data : Data) (timestamp : Option Time) (now : Nat) :
    Except RtpsError Bool × RtpsReader :=
  match data.validate with
  | .error failure => (.error failure,reader)
  | .ok () =>
    if reader.addressesMe data.readerId = false then (.ok false,reader)
    else
      let writer : Guid := ⟨source,data.writerId⟩
      let admitted := reader.acquaint writer
      match admitted.matched.get writer with
      | none => (.ok false,admitted)
      | some proxy =>
        let (accepted,held) := proxy.acceptData data.writerSn
        let noted := { admitted with matched := admitted.matched.insert writer held }
        if accepted = false ∧ reader.config.isStateless = false then (.ok false,noted)
        else
          (.ok true,noted.deliver
            { writer := writer
              sequenceNumber := data.writerSn
              payload := data.payload.payload
              sourceTimestamp := timestamp
              receivedAt := now
              kind := payloadKind data })

def onDataFrag (source : GuidPrefix) (fragment : DataFrag) (timestamp : Option Time) (now : Nat) :
    Except BehaviorError Bool × RtpsReader :=
  match fragment.validate with
  | .error failure => (.error (.wire failure),reader)
  | .ok () =>
    if reader.addressesMe fragment.readerId = false then (.ok false,reader)
    else
      let writer : Guid := ⟨source,fragment.writerId⟩
      let admitted := reader.acquaint writer
      match admitted.matched.get writer with
      | none => (.ok false,admitted)
      | some proxy =>
        if proxy.isSatisfied fragment.writerSn then (.ok false,admitted)
        else
          let (outcome,reassembler) := admitted.reassembler.accept writer fragment
          let stored := { admitted with reassembler := reassembler }
          match outcome with
          | .error failure => (.error failure,stored)
          | .ok none => (.ok false,stored)
          | .ok (some payload) =>
            let (accepted,held) := proxy.acceptData fragment.writerSn
            let noted := { stored with matched := stored.matched.insert writer held }
            if accepted = false then (.ok false,noted)
            else
              (.ok true,noted.deliver
                { writer := writer
                  sequenceNumber := fragment.writerSn
                  payload := payload
                  sourceTimestamp := timestamp
                  receivedAt := now
                  kind := .alive })

def onHeartbeat (source : GuidPrefix) (heartbeat : Heartbeat) : Bool × RtpsReader :=
  if reader.addressesMe heartbeat.readerId = false then (false,reader)
  else
    let writer : Guid := ⟨source,heartbeat.writerId⟩
    match reader.matched.get writer with
    | none => (false,reader)
    | some proxy =>
      let (applied,held) := proxy.acceptHeartbeat heartbeat
      -- A best-effort reader learns the window and never answers.
      let settled := if proxy.reliable then held else held.clearHeartbeatPending
      (applied,{ reader with matched := reader.matched.insert writer settled })

def onGap (source : GuidPrefix) (gap : Gap) : RtpsReader :=
  if reader.addressesMe gap.readerId = false then reader
  else
    let writer : Guid := ⟨source,gap.writerId⟩
    match reader.matched.get writer with
    | none => reader
    | some proxy =>
      { reader with
        matched := reader.matched.insert writer (proxy.acceptGap gap)
        reassembler := gap.irrelevant.foldl
          (fun reassembler number => reassembler.discard writer number) reader.reassembler }

def message (submessages : List Submessage) : Message :=
  { header := { guidPrefix := reader.config.guid.guidPrefix }, submessages := submessages }

/-- The `NACK_FRAG`s for one writer: the series that have stalled since the last call. -/
def nackFragsFor (writer : Guid) (proxy : WriterProxy) : List Message :=
  (reader.reassembler.inFlight writer).filterMap fun number =>
    let received := (reader.reassembler.assembly writer number).map Assembly.receivedCount
    if reader.fragmentProgress.get (toLex (writer,number)) ≠ some (received.getD 0) then none
    else
      match reader.reassembler.missing writer number with
      | none => none
      | some missing =>
        if missing.isEmpty then none
        else
          some (reader.message [.infoDestination { guidPrefix := writer.guidPrefix },.nackFrag
                { readerId := reader.config.guid.entityId
                  writerId := writer.entityId
                  writerSn := number
                  fragmentNumberState := missing
                  count := proxy.nextAcknackCount }])

def answerable : List (Guid × WriterProxy) := reader.matched.entries.filter fun binding =>
    binding.2.reliable && !binding.2.locators.isEmpty

def produceNackFrags : Except BehaviorError (List Outbound) × RtpsReader :=
  let sent := (reader.answerable.flatMap fun binding =>
    (reader.nackFragsFor binding.1 binding.2).map fun message =>
      (binding.2.locators,message)).mapM fun pair => Outbound.send pair.1 pair.2
  match sent with
  | .error failure => (.error failure,reader)
  | .ok outbound =>
    let progress := (reader.answerable.flatMap fun binding =>
      (reader.reassembler.inFlight binding.1).map fun number =>
        (toLex (binding.1,number),
          ((reader.reassembler.assembly binding.1 number).map Assembly.receivedCount).getD 0))
    (.ok outbound,{ reader with
      fragmentProgress := progress.foldl (fun map binding => map.insert binding.1 binding.2)
        OrderedMap.empty })

end RtpsReader

/-- A submessage addressed to this participant, with the source and timestamp in force. -/
structure Delivery where
  source : GuidPrefix
  timestamp : Option Time
  submessage : Submessage

namespace RtpsReader

def dispatch (now : Nat) (reader : RtpsReader) (delivery : Delivery) : RtpsReader :=
  match delivery.submessage with
  | .data data => (reader.onData delivery.source data delivery.timestamp now).2
  | .dataFrag fragment => (reader.onDataFrag delivery.source fragment delivery.timestamp now).2
  | .heartbeat heartbeat => (reader.onHeartbeat delivery.source heartbeat).2
  | .gap gap => reader.onGap delivery.source gap
  | _ => reader

end RtpsReader

end Astrs.Rtps
