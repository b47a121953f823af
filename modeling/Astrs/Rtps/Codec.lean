/-
The octets of RTPS messages.

The length of a body is a 16-bit field; the last body of a message may be longer and then
declares zero.  A submessage starts at a multiple of four.
-/

import Astrs.Rtps.Message

namespace Astrs.Rtps

open Astrs.Base Astrs.Cdr

def headerLen : Nat := 20

def submessageHeaderLen : Nat := 4

def dataOctetsToInlineQos : Nat := 16

def dataFragOctetsToInlineQos : Nat := 28

def dataPreludeLen : Nat := 4 + dataOctetsToInlineQos

def dataFragPreludeLen : Nat := 4 + dataFragOctetsToInlineQos

def maxOctetsToNextHeader : Nat := 65535

/-! ### Submessage ids and flags -/

inductive SubmessageId where
  | pad
  | ackNack
  | heartbeat
  | gap
  | infoTimestamp
  | infoSource
  | infoReplyIp4
  | infoDestination
  | infoReply
  | nackFrag
  | heartbeatFrag
  | data
  | dataFrag
  | unknown (raw : UInt8)
  deriving DecidableEq

namespace SubmessageId

def raw : SubmessageId → UInt8
  | .pad => 0x01
  | .ackNack => 0x06
  | .heartbeat => 0x07
  | .gap => 0x08
  | .infoTimestamp => 0x09
  | .infoSource => 0x0c
  | .infoReplyIp4 => 0x0d
  | .infoDestination => 0x0e
  | .infoReply => 0x0f
  | .nackFrag => 0x12
  | .heartbeatFrag => 0x13
  | .data => 0x15
  | .dataFrag => 0x16
  | .unknown raw => raw

/-- The ids of the security submessages are not interpreted and count as unknown. -/
def fromRaw (raw : UInt8) : SubmessageId :=
  ([.pad,.ackNack,.heartbeat,.gap,.infoTimestamp,.infoSource,.infoReplyIp4,
    .infoDestination,.infoReply,.nackFrag,.heartbeatFrag,.data,.dataFrag].find?
      fun id => id.raw == raw).getD (.unknown raw)

def allowsEmptyBody (id : SubmessageId) : Bool := id == .pad || id == .infoTimestamp

end SubmessageId

namespace Flags

def endianness : UInt8 := 0x01
def inlineQos : UInt8 := 0x02
def data : UInt8 := 0x04
def key : UInt8 := 0x08
def nonStandardPayload : UInt8 := 0x10
def keyFrag : UInt8 := 0x04
def nonStandardPayloadFrag : UInt8 := 0x08
def final : UInt8 := 0x02
def liveliness : UInt8 := 0x04
def invalidate : UInt8 := 0x02

def fromEndianness : Endianness → UInt8
  | .little => endianness
  | .big => 0

def set (flags mask : UInt8) (condition : Bool) : UInt8 :=
  if condition then flags ||| mask else flags &&& ~~~mask

def endiannessOf (flags : UInt8) : Endianness :=
  if flags &&& endianness == 0 then .big else .little

end Flags

def DataPayload.flagBits : DataPayload → UInt8
  | .none => 0
  | .data _ => Flags.data
  | .key _ => Flags.key

namespace Submessage

def id : Submessage → SubmessageId
  | .data _ => .data
  | .dataFrag _ => .dataFrag
  | .heartbeat _ => .heartbeat
  | .ackNack _ => .ackNack
  | .nackFrag _ => .nackFrag
  | .gap _ => .gap
  | .infoTimestamp _ => .infoTimestamp
  | .infoSource _ => .infoSource
  | .infoDestination _ => .infoDestination
  | .other id _ _ => .fromRaw id

def flags : Submessage → UInt8
  | .data body =>
    (Flags.set (Flags.set (Flags.fromEndianness body.endianness) Flags.inlineQos
      body.inlineQos.isSome ||| body.payload.flagBits) Flags.nonStandardPayload
        body.nonStandardPayload) ||| body.extension.reservedFlags
  | .dataFrag body =>
    (Flags.set (Flags.set (Flags.set (Flags.fromEndianness body.endianness) Flags.inlineQos
      body.inlineQos.isSome) Flags.keyFrag body.key) Flags.nonStandardPayloadFrag
        body.nonStandardPayload) ||| body.extension.reservedFlags
  | .heartbeat body =>
    (Flags.set (Flags.set (Flags.fromEndianness body.endianness) Flags.final body.isFinal)
      Flags.liveliness body.liveliness) ||| body.extension.reservedFlags
  | .ackNack body =>
    Flags.set (Flags.fromEndianness body.endianness) Flags.final body.isFinal |||
      body.extension.reservedFlags
  | .nackFrag body => Flags.fromEndianness body.endianness ||| body.extension.reservedFlags
  | .gap body => Flags.fromEndianness body.endianness ||| body.extension.reservedFlags
  | .infoTimestamp body =>
    Flags.set (Flags.fromEndianness body.endianness) Flags.invalidate body.timestamp.isNone |||
      body.reservedFlags
  | .infoSource body => Flags.fromEndianness body.endianness ||| body.reservedFlags
  | .infoDestination body => Flags.fromEndianness body.endianness ||| body.reservedFlags
  | .other _ flags _ => flags

end Submessage

def writeEntityId (id : EntityId) : Bytes → Bytes := writeOctets (octets .big 4 id.toNat)

def writeGuidPrefix (guidPrefix : GuidPrefix) : Bytes → Bytes :=
  writeOctets (octets .big 12 guidPrefix.toNat)

def writeSequenceNumber (endianness : Endianness) (number : Int) (stream : Bytes) : Bytes :=
  writeU32 endianness (unsigned32 number) (writeI32 endianness (number / 4294967296) stream)

def writeWindow (endianness : Endianness) (window : Bitmap) (stream : Bytes) : Bytes :=
  window.words.foldl (fun stream word => writeU32 endianness word stream)
    (writeU32 endianness window.numBits stream)

def writeParameter (endianness : Endianness) (parameter : Parameter) (stream : Bytes) :
    Except RtpsError Bytes :=
  if parameter.value.length ≤ 65535 then
    .ok (writeOctets (parameter.value ++ List.replicate (paddingTo parameter.value.length 4) 0)
      (writeU16 endianness parameter.value.length
        (writeU16 endianness parameter.id (align 4 stream))))
  else .error (.cdr (.parameterTooLong parameter.id parameter.value.length))

/-- The entries of a parameter list and the sentinel behind them. -/
def writeParameterList (endianness : Endianness) : ParameterList → Bytes → Except RtpsError Bytes
  | [],stream => .ok (writeU16 endianness 0 (writeU16 endianness 1 (align 4 stream)))
  | parameter :: rest,stream => do
    writeParameterList endianness rest (← writeParameter endianness parameter stream)

def writeInlineQos (endianness : Endianness) (list : Option ParameterList) (stream : Bytes) :
    Except RtpsError Bytes :=
  match list with
  | none => .ok stream
  | some list => writeParameterList endianness list stream

def Data.writeBody (data : Data) : Except RtpsError Bytes := do
  let prelude := writeSequenceNumber data.endianness data.writerSn
    (writeEntityId data.writerId (writeEntityId data.readerId
      (writeU16 data.endianness dataOctetsToInlineQos
        (writeU16 data.endianness data.extraFlags []))))
  let qos ← writeInlineQos data.endianness data.inlineQos prelude
  return writeOctets data.extension.trailing (writeOctets data.payload.payload qos)

def DataFrag.writeBody (fragment : DataFrag) : Except RtpsError Bytes := do
  let endianness := fragment.endianness
  let prelude := writeU32 endianness fragment.sampleSize (writeU16 endianness fragment.fragmentSize
      (writeU16 endianness fragment.fragmentsInSubmessage
        (writeU32 endianness fragment.fragmentStartingNum
          (writeSequenceNumber endianness fragment.writerSn
            (writeEntityId fragment.writerId (writeEntityId fragment.readerId
              (writeU16 endianness dataFragOctetsToInlineQos
                (writeU16 endianness fragment.extraFlags []))))))))
  let qos ← writeInlineQos endianness fragment.inlineQos prelude
  return writeOctets fragment.extension.trailing (writeOctets fragment.payload qos)

def Heartbeat.writeBody (heartbeat : Heartbeat) : Bytes :=
  let endianness := heartbeat.endianness
  writeOctets heartbeat.extension.trailing (writeI32 endianness heartbeat.count
      (writeSequenceNumber endianness heartbeat.lastSn
        (writeSequenceNumber endianness heartbeat.firstSn
          (writeEntityId heartbeat.writerId (writeEntityId heartbeat.readerId [])))))

def AckNack.writeBody (acknack : AckNack) : Bytes :=
  let endianness := acknack.endianness
  writeOctets acknack.extension.trailing (writeI32 endianness acknack.count
      (writeWindow endianness acknack.readerSnState.window
        (writeSequenceNumber endianness acknack.readerSnState.base
          (writeEntityId acknack.writerId (writeEntityId acknack.readerId [])))))

def NackFrag.writeBody (nack : NackFrag) : Bytes :=
  let endianness := nack.endianness
  writeOctets nack.extension.trailing (writeI32 endianness nack.count
      (writeWindow endianness nack.fragmentNumberState.window
        (writeU32 endianness nack.fragmentNumberState.base
          (writeSequenceNumber endianness nack.writerSn
            (writeEntityId nack.writerId (writeEntityId nack.readerId []))))))

def Gap.writeBody (gap : Gap) : Bytes :=
  let endianness := gap.endianness
  writeOctets gap.extension.trailing (writeWindow endianness gap.gapList.window
      (writeSequenceNumber endianness gap.gapList.base (writeSequenceNumber endianness gap.gapStart
          (writeEntityId gap.writerId (writeEntityId gap.readerId [])))))

def InfoTimestamp.writeBody (info : InfoTimestamp) : Bytes :=
  match info.timestamp with
  | some time =>
    writeU32 info.endianness time.fraction (writeI32 info.endianness time.seconds [])
  | none => []

def InfoSource.writeBody (info : InfoSource) : Bytes := writeGuidPrefix info.guidPrefix
    (writeOctets [info.version.1,info.version.2,info.vendorId.1,info.vendorId.2]
      (writeU32 info.endianness info.unused []))

def InfoDestination.writeBody (info : InfoDestination) : Bytes := writeGuidPrefix info.guidPrefix []

def Submessage.writeBody : Submessage → Except RtpsError Bytes
  | .data body => body.writeBody
  | .dataFrag body => body.writeBody
  | .heartbeat body => .ok body.writeBody
  | .ackNack body => .ok body.writeBody
  | .nackFrag body => .ok body.writeBody
  | .gap body => .ok body.writeBody
  | .infoTimestamp body => .ok body.writeBody
  | .infoSource body => .ok body.writeBody
  | .infoDestination body => .ok body.writeBody
  | .other _ _ body => .ok body

def Parameter.serializedLen (parameter : Parameter) : Nat :=
  4 + (parameter.value.length + paddingTo parameter.value.length 4)

def ParameterList.serializedLen (list : ParameterList) : Nat :=
  list.foldr (fun parameter total => parameter.serializedLen + total) 4

def inlineQosLen (list : Option ParameterList) : Nat :=
  match list with
  | none => 0
  | some list => ParameterList.serializedLen list

namespace Submessage

def bodyLen : Submessage → Nat
  | .data body =>
    dataPreludeLen + inlineQosLen body.inlineQos + body.payload.payload.length +
      body.extension.trailing.length
  | .dataFrag body =>
    dataFragPreludeLen + inlineQosLen body.inlineQos + body.payload.length +
      body.extension.trailing.length
  | .heartbeat body => 28 + body.extension.trailing.length
  | .ackNack body =>
    12 + (12 + 4 * body.readerSnState.window.numWords) + body.extension.trailing.length
  | .nackFrag body =>
    20 + (8 + 4 * body.fragmentNumberState.window.numWords) + body.extension.trailing.length
  | .gap body => 16 + (12 + 4 * body.gapList.window.numWords) + body.extension.trailing.length
  | .infoTimestamp body => if body.timestamp.isSome then 8 else 0
  | .infoSource _ => 20
  | .infoDestination _ => 12
  | .other _ _ body => body.length

def serializedLen (submessage : Submessage) : Nat := submessageHeaderLen + submessage.bodyLen

end Submessage

def Header.toBytes (header : Header) : Bytes :=
  [0x52,0x54,0x50,0x53,header.version.1,header.version.2,header.vendorId.1,
    header.vendorId.2] ++ octets .big 12 header.guidPrefix.toNat

def octetsFor (id : SubmessageId) (bodyLen : Nat) (isLast : Bool) : Except RtpsError Nat :=
  if bodyLen ≤ maxOctetsToNextHeader then .ok bodyLen
  else if isLast then .ok 0
  else .error (.tooLong id.raw bodyLen maxOctetsToNextHeader)

def submessageHeaderBytes (id : SubmessageId) (flags : UInt8) (length : Nat) : Bytes :=
  [id.raw,flags] ++ octets (Flags.endiannessOf flags) 2 length

def Submessage.encode (submessage : Submessage) (isLast : Bool) : Except RtpsError Bytes := do
  let body ← submessage.writeBody
  if isLast = false then
    if body.length % 4 ≠ 0 then
      throw (.unalignedBody submessage.id.raw body.length)
    if body = [] ∧ submessage.id.allowsEmptyBody = false then
      throw (.emptyBodyNotLast submessage.id.raw)
  let length ← octetsFor submessage.id body.length isLast
  return submessageHeaderBytes submessage.id submessage.flags length ++ body

def encodeSubmessages : List Submessage → Except RtpsError Bytes
  | [] => .ok []
  | submessage :: rest => do
    let front ← submessage.encode rest.isEmpty
    let back ← encodeSubmessages rest
    return front ++ back

def Message.encode (message : Message) : Except RtpsError Bytes := do
  let submessages ← encodeSubmessages message.submessages
  return message.header.toBytes ++ submessages

end Astrs.Rtps
