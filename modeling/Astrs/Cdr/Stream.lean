/-
CDR streams without an encapsulation header.

A writer is the octets produced so far.
Alignment counts from the first octet of the stream; primitives are
aligned to their own size, up to eight octets.
-/

import Astrs.Base.Bytes

namespace Astrs.Cdr

open Astrs.Base

abbrev Bytes := List UInt8

inductive Endianness where
  | big
  | little
  deriving DecidableEq

inductive CdrError where
  | truncated (needed available : Nat) (context : String)
  | trailingBytes (remaining : Nat)
  | unknownEncapsulation (identifier : Nat)
  | paddingOverrun (padding available : Nat)
  | lengthOverflow (declared available elementSize : Nat) (context : String)
  | sequenceTooLong (length maximum : Nat)
  | boundExceeded (bound actual : Nat) (context : String)
  | missingNulTerminator
  | interiorNul (index : Nat)
  | invalidUtf8
  | invalidUtf16 (index : Nat)
  | invalidBoolean (octet : UInt8)
  | delimiterOverrun (declared available : Nat)
  | missingSentinel
  | unsupportedParameter (id : Nat)
  | parameterTooLong (id length : Nat)
  | unsupportedEncapsulation (operation : String)
  | sizeOverflow (operation : String)
  deriving DecidableEq

/-- The octets missing to the next multiple of `alignment`. -/
def paddingTo (position alignment : Nat) : Nat := (alignment - position % alignment) % alignment

variable (endianness : Endianness)

def octets (width value : Nat) : Bytes :=
  match endianness with
  | .little => littleEndian width value
  | .big => (littleEndian width value).reverse

def ofOctets (bytes : Bytes) : Nat :=
  match endianness with
  | .little => ofLittleEndian bytes
  | .big => ofLittleEndian bytes.reverse

/-- A signed number as the 32 bits of its two's complement. -/
def unsigned32 (value : Int) : Nat := (value % 4294967296).toNat

@[simp] theorem length_octets (width value : Nat) :
    (octets endianness width value).length = width := by
  cases endianness <;> simp [octets]

theorem ofOctets_octets {width value : Nat} (fits : value < 256 ^ width) :
    ofOctets endianness (octets endianness width value) = value := by
  cases endianness with
  | little => exact ofLittleEndian_littleEndian fits
  | big =>
    unfold ofOctets octets
    rw [List.reverse_reverse]
    exact ofLittleEndian_littleEndian fits

/-- Zeros up to the next multiple of `natural`. -/
def align (natural : Nat) (stream : Bytes) : Bytes :=
  stream ++ List.replicate (paddingTo stream.length natural) 0

def writeU16 (value : Nat) (stream : Bytes) : Bytes := align 2 stream ++ octets endianness 2 value

def writeU32 (value : Nat) (stream : Bytes) : Bytes := align 4 stream ++ octets endianness 4 value

def writeI32 (value : Int) (stream : Bytes) : Bytes := writeU32 endianness (unsigned32 value) stream

def writeOctets (items : Bytes) (stream : Bytes) : Bytes := stream ++ items

end Astrs.Cdr
