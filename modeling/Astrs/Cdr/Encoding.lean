/-
Encapsulation: the ten kinds, what each says about the octets behind the header, and
the header itself.
-/

import Astrs.Cdr.Stream

namespace Astrs.Cdr

inductive CdrVersion where
  | xcdr1
  | xcdr2
  deriving DecidableEq

def CdrVersion.maxAlignment : CdrVersion → Nat
  | .xcdr1 => 8
  | .xcdr2 => 4

def CdrVersion.isV2 : CdrVersion → Bool
  | .xcdr1 => false
  | .xcdr2 => true

inductive Extensibility where
  | final
  | appendable
  | mutable
  deriving DecidableEq

def Extensibility.hasDheader : Extensibility → Bool
  | .final => false
  | .appendable => true
  | .mutable => true

inductive EncapsulationKind where
  | cdrBe
  | cdrLe
  | plCdrBe
  | plCdrLe
  | cdr2Be
  | cdr2Le
  | dCdr2Be
  | dCdr2Le
  | plCdr2Be
  | plCdr2Le
  deriving DecidableEq

namespace EncapsulationKind

def identifier : EncapsulationKind → Nat
  | cdrBe => 0x0000
  | cdrLe => 0x0001
  | plCdrBe => 0x0002
  | plCdrLe => 0x0003
  | cdr2Be => 0x0006
  | cdr2Le => 0x0007
  | dCdr2Be => 0x0008
  | dCdr2Le => 0x0009
  | plCdr2Be => 0x000a
  | plCdr2Le => 0x000b

def fromIdentifier (identifier : Nat) : Except CdrError EncapsulationKind :=
  match identifier with
  | 0x0000 => .ok cdrBe
  | 0x0001 => .ok cdrLe
  | 0x0002 => .ok plCdrBe
  | 0x0003 => .ok plCdrLe
  | 0x0006 => .ok cdr2Be
  | 0x0007 => .ok cdr2Le
  | 0x0008 => .ok dCdr2Be
  | 0x0009 => .ok dCdr2Le
  | 0x000a => .ok plCdr2Be
  | 0x000b => .ok plCdr2Le
  | other => .error (.unknownEncapsulation other)

/-- The low bit of the identifier is the byte order. -/
def endianness (kind : EncapsulationKind) : Endianness :=
  if kind.identifier % 2 = 0 then .big else .little

def version : EncapsulationKind → CdrVersion
  | cdrBe | cdrLe | plCdrBe | plCdrLe => .xcdr1
  | cdr2Be | cdr2Le | dCdr2Be | dCdr2Le | plCdr2Be | plCdr2Le => .xcdr2

theorem fromIdentifier_identifier (kind : EncapsulationKind) :
    fromIdentifier kind.identifier = .ok kind := by
  cases kind <;> rfl

theorem identifier_lt (kind : EncapsulationKind) : kind.identifier < 65536 := by
  cases kind <;> decide

end EncapsulationKind

inductive WCharWidth where
  | two
  | four
  deriving DecidableEq

def WCharWidth.octets : WCharWidth → Nat
  | .two => 2
  | .four => 4

structure Encoding where
  kind : EncapsulationKind
  wcharWidth : WCharWidth
  deriving DecidableEq

namespace Encoding

def new (kind : EncapsulationKind) : Encoding :=
  { kind := kind, wcharWidth := .two }

def endianness (encoding : Encoding) : Endianness := encoding.kind.endianness

def version (encoding : Encoding) : CdrVersion := encoding.kind.version

def isV2 (encoding : Encoding) : Bool := encoding.version.isV2

/-- The alignment of a member, with the cap of the version applied. -/
def alignFor (encoding : Encoding) (natural : Nat) : Nat :=
  if encoding.version.maxAlignment < natural then encoding.version.maxAlignment else natural

end Encoding

structure EncapsulationHeader where
  kind : EncapsulationKind
  options : Nat

namespace EncapsulationHeader

def new (kind : EncapsulationKind) : EncapsulationHeader :=
  { kind := kind, options := 0 }

/-- The two low bits of the options count the pad octets at the end. -/
def padding (header : EncapsulationHeader) : Nat := header.options % 4

def withPadding (options padding : Nat) : Nat := options / 4 * 4 + padding % 4

def toBytes (header : EncapsulationHeader) : Bytes :=
  octets .big 2 header.kind.identifier ++ octets .big 2 header.options

def fromBytes (bytes : Bytes) : Except CdrError EncapsulationHeader :=
  match bytes with
  | first :: second :: third :: fourth :: _ => do
    let kind ← EncapsulationKind.fromIdentifier (ofOctets .big [first,second])
    return { kind := kind, options := ofOctets .big [third,fourth] }
  | short => .error (.truncated 4 short.length "encapsulation header")

@[simp] theorem length_toBytes (header : EncapsulationHeader) : header.toBytes.length = 4 := by
  simp [toBytes]

/-- A header is read back from the octets in front of any body. -/
theorem fromBytes_append {header : EncapsulationHeader} (small : header.options < 65536)
    (body : Bytes) : fromBytes (header.toBytes ++ body) = .ok header := by
  have identified := header.kind.identifier_lt
  have kindBack := @ofOctets_octets .big 2 _ identified
  have optionsBack := @ofOctets_octets .big 2 _ small
  cases header with
  | mk kind options =>
    change (EncapsulationKind.fromIdentifier (ofOctets .big (octets .big 2 kind.identifier)) >>=
      fun found => Except.ok (EncapsulationHeader.mk found
        (ofOctets .big (octets .big 2 options)))) = _
    rw [kindBack,optionsBack,EncapsulationKind.fromIdentifier_identifier]
    rfl

end EncapsulationHeader

end Astrs.Cdr
