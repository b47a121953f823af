/-
Types that are written in CDR, their values, and how each value is written and read.

Signed and floating-point numbers are their bits, as the source writes and reads them.
-/

import Astrs.Cdr.Reader

namespace Astrs.Cdr

open Astrs.Base CdrWriter Encoding

inductive Primitive where
  | bool
  | u8
  | i8
  | u16
  | i16
  | u32
  | i32
  | u64
  | i64
  | f32
  | f64
  deriving DecidableEq

namespace Primitive

def octets : Primitive → Nat
  | bool | u8 | i8 => 1
  | u16 | i16 => 2
  | u32 | i32 | f32 => 4
  | u64 | i64 | f64 => 8

def Value : Primitive → Type
  | bool => Bool
  | u8 | i8 => BitVec 8
  | u16 | i16 => BitVec 16
  | u32 | i32 | f32 => BitVec 32
  | u64 | i64 | f64 => BitVec 64

def serialize : (kind : Primitive) → kind.Value → CdrWriter → Written
  | bool,value => writeBool value
  | u8,value => writeU8 value
  | i8,value => writeU8 value
  | u16,value => CdrWriter.writeU16 value
  | i16,value => CdrWriter.writeU16 value
  | u32,value => CdrWriter.writeU32 value
  | i32,value => CdrWriter.writeU32 value
  | f32,value => CdrWriter.writeU32 value
  | u64,value => writeU64 value
  | i64,value => writeU64 value
  | f64,value => writeU64 value

def deserialize (encoding : Encoding) : (kind : Primitive) → CdrGet kind.Value
  | bool => readBool
  | u8 => readU8
  | i8 => readU8
  | u16 => encoding.readU16
  | i16 => encoding.readU16
  | u32 => encoding.readU32
  | i32 => encoding.readU32
  | f32 => encoding.readU32
  | u64 => encoding.readU64
  | i64 => encoding.readU64
  | f64 => encoding.readU64

end Primitive

mutual

inductive CdrType where
  | primitive (kind : Primitive)
  | string
  | wstring
  | boundedString (bound : Nat)
  | boundedWString (bound : Nat)
  | sequence (element : CdrType)
  | boundedSequence (element : CdrType) (bound : Nat)
  | array (element : CdrType) (count : Nat)
  | struct (extensibility : Extensibility) (members : Members)

inductive Members where
  | nil
  | cons (member : CdrType) (others : Members)

end

mutual

def CdrType.Value : CdrType → Type
  | .primitive kind => kind.Value
  | .string => String
  | .wstring => List (BitVec 16)
  | .boundedString _ => String
  | .boundedWString _ => List (BitVec 16)
  | .sequence element => List element.Value
  | .boundedSequence element _ => List element.Value
  | .array element count => List.Vector element.Value count
  | .struct _ members => members.Values
termination_by structural type => type

def Members.Values : Members → Type
  | .nil => Unit
  | .cons member others => member.Value × others.Values
termination_by structural members => members

end

def CdrType.isPrimitive : CdrType → Bool
  | .primitive _ => true
  | _ => false

def saturatingAdd (left right : Nat) : Nat := min (left + right) 18446744073709551615

def saturatingMul (left right : Nat) : Nat := min (left * right) 18446744073709551615

mutual

/-- A floor under what any value of the type takes. -/
def CdrType.minSerializedSize : CdrType → Nat
  | .primitive kind => kind.octets
  | .string => 5
  | .wstring => 4
  | .boundedString _ => 5
  | .boundedWString _ => 4
  | .sequence _ => 4
  | .boundedSequence _ _ => 4
  | .array element count => saturatingMul count element.minSerializedSize
  | .struct _ members => members.minSerializedSize 0
termination_by structural type => type

def Members.minSerializedSize : Members → Nat → Nat
  | .nil,sofar => sofar
  | .cons member others,sofar =>
    others.minSerializedSize (saturatingAdd sofar member.minSerializedSize)
termination_by structural members => members

end

def CdrWriter.checked (actual bound : Nat) (context : String) (write : CdrWriter → Written)
    (writer : CdrWriter) : Written := do
  checkBound actual bound context
  write writer

mutual

def CdrType.serialize : (type : CdrType) → type.Value → CdrWriter → Written
  | .primitive kind,value => kind.serialize value
  | .string,value => writeStr value
  | .wstring,value => writeWstr value
  | .boundedString bound,value =>
    checked (utf8 value).length bound "string<N>" (writeStr value)
  | .boundedWString bound,value =>
    checked (List.length value) bound "wstring<N>" (writeWstr value)
  | .sequence element,value =>
    writeSequence element.isPrimitive (fun item => element.serialize item) value
  | .boundedSequence element bound,value =>
    checked (List.length value) bound "sequence<T, N>"
      (writeSequence element.isPrimitive (fun item => element.serialize item) value)
  | .array element _,value =>
    writeArray element.isPrimitive (fun item => element.serialize item)
      (List.Vector.toList value)
  | .struct extensibility members,value =>
    writeStruct extensibility (members.serialize value)
termination_by structural type => type

def Members.serialize : (members : Members) → members.Values → CdrWriter → Written
  | .nil,_,writer => .ok writer
  | .cons member others,value,writer => do
    let next ← member.serialize (Prod.fst value) writer
    others.serialize (Prod.snd value) next
termination_by structural members => members

end

def Encoding.readChecked {α : Type} (size : α → Nat) (bound : Nat) (context : String)
    (read : CdrGet α) : CdrGet α := do
  let value ← read
  checkBound (size value) bound context
  return value

mutual

def CdrType.deserialize (encoding : Encoding) : (type : CdrType) → CdrGet type.Value
  | .primitive kind => kind.deserialize encoding
  | .string => encoding.readStr
  | .wstring => encoding.readWstring
  | .boundedString bound =>
    readChecked (fun value => (utf8 value).length) bound "string<N>"
      encoding.readStr
  | .boundedWString bound =>
    readChecked List.length bound "wstring<N>" encoding.readWstring
  | .sequence element =>
    encoding.readSequence element.isPrimitive element.minSerializedSize
      (element.deserialize encoding)
  | .boundedSequence element bound =>
    encoding.readBoundedSequence element.isPrimitive element.minSerializedSize bound
      (element.deserialize encoding)
  | .array element count =>
    encoding.readArray element.isPrimitive count (element.deserialize encoding)
  | .struct extensibility members =>
    encoding.readStruct extensibility (members.deserialize encoding)
termination_by structural type => type

def Members.deserialize (encoding : Encoding) : (members : Members) → CdrGet members.Values
  | .nil => return ()
  | .cons member others => do
    let value ← member.deserialize encoding
    let values ← others.deserialize encoding
    return (value,values)
termination_by structural members => members

end

def toVec (type : CdrType) (value : type.Value) (encoding : Encoding) : Except CdrError Bytes :=
  (type.serialize value (new encoding)).map finish

def toVecPadded (type : CdrType) (value : type.Value) (encoding : Encoding) :
    Except CdrError Bytes :=
  (type.serialize value (new encoding)).map finishPadded

/-- The length of the payload, found by a writer that only counts. -/
def serializedSize (type : CdrType) (value : type.Value) (encoding : Encoding) :
    Except CdrError Nat :=
  (type.serialize value (measuring encoding)).map written

/-- The kind and the octets between the header and the announced padding. -/
def openPayload (data : Bytes) : Except CdrError (Encoding × Cursor) := do
  let header ← EncapsulationHeader.fromBytes data
  let body := data.drop 4
  if body.length < header.padding then .error (.paddingOverrun header.padding body.length)
  else return (new header.kind,⟨0,body.take (body.length - header.padding)⟩)

def fromBytes (type : CdrType) (data : Bytes) : Except CdrError type.Value := do
  let (encoding,cursor) ← openPayload data
  let (value,left) ← type.deserialize encoding cursor
  if left.rest.length = 0 then return value else .error (.trailingBytes left.rest.length)

end Astrs.Cdr
