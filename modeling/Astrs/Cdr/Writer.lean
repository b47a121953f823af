/-
The CDR writer.

A writer appends to a sink: a buffer, or a counter that only adds up lengths.  Alignment
counts from the origin, which the encapsulation header sets behind itself.
-/

import Astrs.Cdr.Encoding

namespace Astrs.Cdr

inductive Sink where
  | buffer (octets : Bytes)
  | counter (count : Nat)
  deriving DecidableEq

namespace Sink

def len : Sink → Nat
  | buffer octets => octets.length
  | counter count => count

def pushSlice (octets : Bytes) : Sink → Sink
  | buffer held => buffer (held ++ octets)
  | counter count => counter (count + octets.length)

def pushZeros (count : Nat) : Sink → Sink
  | buffer held => buffer (held ++ List.replicate count 0)
  | counter total => counter (total + count)

/-- Overwrites the octets at `slot`; a counter has none. -/
def patch (slot : Nat) (octets : Bytes) : Sink → Sink
  | buffer held =>
    if slot + octets.length ≤ held.length then
      buffer (held.take slot ++ octets ++ held.drop (slot + octets.length))
    else buffer held
  | counter count => counter count

def intoVec : Sink → Bytes
  | buffer octets => octets
  | counter _ => []

end Sink

structure CdrWriter where
  sink : Sink
  encoding : Encoding
  origin : Nat
  headerAt : Option Nat
  deriving DecidableEq

abbrev Written := Except CdrError CdrWriter

namespace CdrWriter

def writeEncapsulationHeader (writer : CdrWriter) : CdrWriter :=
  let sink := writer.sink.pushSlice (EncapsulationHeader.new writer.encoding.kind).toBytes
  { writer with
    sink := sink
    headerAt := some writer.sink.len
    origin := sink.len }

def new (encoding : Encoding) : CdrWriter := writeEncapsulationHeader
    { sink := .buffer []
      encoding := encoding
      origin := 0
      headerAt := none }

def measuring (encoding : Encoding) : CdrWriter := writeEncapsulationHeader
    { sink := .counter 0
      encoding := encoding
      origin := 0
      headerAt := none }

def position (writer : CdrWriter) : Nat := writer.sink.len - writer.origin

def written (writer : CdrWriter) : Nat := writer.sink.len

def pushSlice (octets : Bytes) (writer : CdrWriter) : CdrWriter :=
  { writer with sink := writer.sink.pushSlice octets }

def pushZeros (count : Nat) (writer : CdrWriter) : CdrWriter :=
  { writer with sink := writer.sink.pushZeros count }

def align (natural : Nat) (writer : CdrWriter) : CdrWriter :=
  writer.pushZeros (paddingTo writer.position (writer.encoding.alignFor natural))

def writeU8 (value : BitVec 8) (writer : CdrWriter) : Written :=
  .ok (writer.pushSlice [UInt8.ofBitVec value])

def writeBool (value : Bool) (writer : CdrWriter) : Written :=
  writer.writeU8 (if value then 1#8 else 0#8)

def writeWord (width value : Nat) (writer : CdrWriter) : Written :=
  let aligned := writer.align width
  .ok (aligned.pushSlice (octets writer.encoding.endianness width value))

def writeU16 (value : BitVec 16) : CdrWriter → Written := writeWord 2 value.toNat

def writeU32 (value : BitVec 32) : CdrWriter → Written := writeWord 4 value.toNat

def writeU64 (value : BitVec 64) : CdrWriter → Written := writeWord 8 value.toNat

def writeWchar (value : BitVec 16) (writer : CdrWriter) : Written :=
  match writer.encoding.wcharWidth with
  | .two => writer.writeU16 value
  | .four => writer.writeU32 (value.setWidth 32)

def writeSequenceLen (length : Nat) (writer : CdrWriter) : Written :=
  if length ≤ 4294967295 then writer.writeWord 4 length
  else .error (.sequenceTooLong length 4294967295)

def utf8 (value : String) : Bytes := value.toUTF8.data.toList

def writeStr (value : String) (writer : CdrWriter) : Written :=
  match (utf8 value).findIdx? (· == 0) with
  | some index => .error (.interiorNul index)
  | none => do
    let counted ← writer.writeSequenceLen ((utf8 value).length + 1)
    return (counted.pushSlice (utf8 value)).pushSlice [0]

def forEach {α : Type} (write : α → CdrWriter → Written) : List α → CdrWriter → Written
  | [],writer => .ok writer
  | item :: items,writer => do
    let next ← write item writer
    forEach write items next

def writeWstr (units : List (BitVec 16)) (writer : CdrWriter) : Written := do
  let counted ← writer.writeSequenceLen units.length
  forEach writeWchar units counted

def fillLength (slot start : Nat) (writer : CdrWriter) : Written :=
  let length := writer.sink.len - start
  if length ≤ 4294967295 then
    .ok { writer with
      sink := writer.sink.patch slot (octets writer.encoding.endianness 4 length) }
  else .error (.sizeOverflow "writing a DHEADER")

def delimited (body : CdrWriter → Written) (writer : CdrWriter) : Written := do
  let aligned := writer.align 4
  let opened := aligned.pushZeros 4
  let closed ← body opened
  closed.fillLength aligned.sink.len opened.sink.len

def delimitedIf (scope : Bool) (body : CdrWriter → Written) (writer : CdrWriter) : Written :=
  if writer.encoding.isV2 && scope then writer.delimited body else body writer

def writeStruct (extensibility : Extensibility) (body : CdrWriter → Written) : CdrWriter → Written :=
  delimitedIf extensibility.hasDheader body

def writeSequenceBody {α : Type} (serialize : α → CdrWriter → Written) (items : List α)
    (writer : CdrWriter) : Written := do
  let counted ← writer.writeSequenceLen items.length
  forEach serialize items counted

def writeSequence {α : Type} (isPrimitive : Bool) (serialize : α → CdrWriter → Written)
    (items : List α) : CdrWriter → Written :=
  delimitedIf (!isPrimitive) (writeSequenceBody serialize items)

def writeArray {α : Type} (isPrimitive : Bool) (serialize : α → CdrWriter → Written)
    (items : List α) : CdrWriter → Written :=
  delimitedIf (!isPrimitive) (forEach serialize items)

def finish (writer : CdrWriter) : Bytes := writer.sink.intoVec

/-- Pads the end to a multiple of four; only a second-version header says by how much. -/
def finishPadded (writer : CdrWriter) : Bytes :=
  let pad := paddingTo writer.position 4
  if 0 < pad then
    let padded := writer.sink.pushZeros pad
    match writer.encoding.isV2, writer.headerAt with
    | true,some slot =>
      (padded.patch (slot + 2) (octets .big 2 (EncapsulationHeader.withPadding 0 pad))).intoVec
    | _,_ => padded.intoVec
  else writer.sink.intoVec

end CdrWriter

end Astrs.Cdr
