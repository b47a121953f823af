/-
The CDR reader.

A reader is a cursor: the position counted from the origin, and the octets up to the end
of the scope it is in.  Its encoding is an argument here.
-/

import Astrs.Base.Codec
import Astrs.Cdr.Writer

namespace Astrs.Cdr

open Astrs.Base

abbrev CdrGet := Get CdrError

namespace Encoding

def takeArray (count : Nat) (context : String) : CdrGet Bytes :=
  Get.take count fun available => .truncated count available context

variable (encoding : Encoding)

def skipPadding (natural : Nat) : CdrGet Unit := fun cursor =>
  let pad := paddingTo cursor.position (encoding.alignFor natural)
  (takeArray pad "alignment padding" cursor).map fun result => ((),result.2)

def readU8 : CdrGet (BitVec 8) := do
  let taken ← takeArray 1 "u8"
  return BitVec.ofNat 8 (ofOctets .little taken)

def readBool : CdrGet Bool := do
  let octet ← readU8
  if octet = 0#8 then return false
  else if octet = 1#8 then return true
  else throw (.invalidBoolean (UInt8.ofBitVec octet))

def readWord (width : Nat) (context : String) : CdrGet Nat := do
  encoding.skipPadding width
  let taken ← takeArray width context
  return ofOctets encoding.endianness taken

def readU16 : CdrGet (BitVec 16) := BitVec.ofNat 16 <$> encoding.readWord 2 "u16"

def readU32 : CdrGet (BitVec 32) := BitVec.ofNat 32 <$> encoding.readWord 4 "u32"

def readU64 : CdrGet (BitVec 64) := BitVec.ofNat 64 <$> encoding.readWord 8 "u64"

/-- A count, refused when its elements cannot all be there. -/
def readSequenceLen (elementMin : Nat) (context : String) : CdrGet Nat := do
  let declared ← encoding.readWord 4 "u32"
  let available ← Get.remaining
  let element := max elementMin 1
  let needed := min (declared * element) 18446744073709551615
  Get.require (needed ≤ available) (.lengthOverflow declared available element context)
  return declared

def textOf (raw : Bytes) : CdrGet String := do
  Get.require (raw.getLast? = some 0) .missingNulTerminator
  match raw.dropLast.findIdx? (· == 0) with
  | some index => throw (.interiorNul index)
  | none =>
    match String.fromUTF8? ⟨raw.dropLast.toArray⟩ with
    | some value => return value
    | none => throw .invalidUtf8

def readStr : CdrGet String := do
  let length ← encoding.readSequenceLen 1 "string"
  Get.require (length ≠ 0) .missingNulTerminator
  let raw ← takeArray length "raw octets"
  textOf raw

def readUnit (index : Nat) : CdrGet (BitVec 16) :=
  match encoding.wcharWidth with
  | .two => encoding.readU16
  | .four => do
    let wide ← encoding.readU32
    if wide.toNat < 65536 then return wide.setWidth 16 else throw (.invalidUtf16 index)

def readUnits (encoding : Encoding) : Nat → Nat → CdrGet (List (BitVec 16))
  | _,0 => return []
  | index,count + 1 => do
    let unit ← encoding.readUnit index
    let units ← encoding.readUnits (index + 1) count
    return unit :: units

def readWstring : CdrGet (List (BitVec 16)) := do
  let count ← encoding.readSequenceLen encoding.wcharWidth.octets "wstring"
  encoding.readUnits 0 count

def readDheader : CdrGet Nat := do
  Get.require (encoding.isV2 = true)
    (.unsupportedEncapsulation "a DHEADER requires an XCDR2 stream")
  let declared ← encoding.readWord 4 "u32"
  let available ← Get.remaining
  Get.require (declared ≤ available) (.delimiterOverrun declared available)
  return declared

def delimited {α : Type} (body : CdrGet α) : CdrGet α := do
  let declared ← encoding.readDheader
  Get.within declared body

def delimitedIf {α : Type} (scope : Bool) (body : CdrGet α) : CdrGet α :=
  if encoding.isV2 && scope then encoding.delimited body else body

def readStruct {α : Type} (extensibility : Extensibility) (body : CdrGet α) : CdrGet α :=
  encoding.delimitedIf extensibility.hasDheader body

def readSequenceBody {α : Type} (elementMin : Nat) (deserialize : CdrGet α) : CdrGet (List α) := do
  let count ← encoding.readSequenceLen elementMin "sequence"
  List.Vector.toList <$> Get.times deserialize count

def readSequence {α : Type} (isPrimitive : Bool) (elementMin : Nat) (deserialize : CdrGet α) :
    CdrGet (List α) :=
  encoding.delimitedIf (!isPrimitive) (encoding.readSequenceBody elementMin deserialize)

def checkBound (actual bound : Nat) (context : String) : Except CdrError Unit :=
  if bound < actual then .error (.boundExceeded bound actual context) else .ok ()

def readBoundedBody {α : Type} (elementMin bound : Nat) (deserialize : CdrGet α) :
    CdrGet (List α) := do
  let count ← encoding.readSequenceLen elementMin "sequence<T, N>"
  checkBound count bound "sequence<T, N>"
  List.Vector.toList <$> Get.times deserialize count

def readBoundedSequence {α : Type} (isPrimitive : Bool) (elementMin bound : Nat)
    (deserialize : CdrGet α) : CdrGet (List α) :=
  encoding.delimitedIf (!isPrimitive) (encoding.readBoundedBody elementMin bound deserialize)

def readArray {α : Type} (isPrimitive : Bool) (count : Nat) (deserialize : CdrGet α) :
    CdrGet (List.Vector α count) :=
  encoding.delimitedIf (!isPrimitive) (Get.times deserialize count)

end Encoding

end Astrs.Cdr
