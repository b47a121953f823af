/-
RTPS messages: the data of the submessages and their validity clauses.

A sequence number is kept as an integer: what a peer sends may lie at the ends of the
64-bit range, where the arithmetic stops; a writer's own numbers are taken not to get
there.  The kinds of submessage that no endpoint here acts upon are kept as their octets.
-/

import Astrs.Base.Bitmap
import Astrs.Cdr.Stream
import Mathlib.Order.Nat

namespace Astrs.Rtps

open Astrs.Base Astrs.Cdr

abbrev GuidPrefix := BitVec 96

abbrev EntityId := BitVec 32

def EntityId.isUnknown (id : EntityId) : Bool := id == 0

structure Guid where
  guidPrefix : GuidPrefix
  entityId : EntityId
  deriving DecidableEq

/-- The sixteen octets of a GUID as one number: GUIDs are ordered octet by octet. -/
def Guid.toNat (guid : Guid) : Nat := guid.guidPrefix.toNat * 4294967296 + guid.entityId.toNat

theorem Guid.toNat_injective : Function.Injective Guid.toNat := by
  intro left right same
  unfold Guid.toNat at same
  have prefixes : left.guidPrefix.toNat = right.guidPrefix.toNat := by omega
  have entities : left.entityId.toNat = right.entityId.toNat := by omega
  cases left
  cases right
  simp only [Guid.mk.injEq]
  exact ⟨BitVec.eq_of_toNat_eq prefixes,BitVec.eq_of_toNat_eq entities⟩

instance : LinearOrder Guid := LinearOrder.lift' Guid.toNat Guid.toNat_injective

structure Time where
  seconds : Int
  fraction : Nat
  deriving DecidableEq

def i64Min : Int := -9223372036854775808

def i64Max : Int := 9223372036854775807

/-- The next number; the last one is followed by itself. -/
def SequenceNumber.next (number : Int) : Int := min (number + 1) i64Max

def SequenceNumber.previous (number : Int) : Int := max (number - 1) i64Min

inductive SetDefect where
  | numBitsTooLarge (declared : Nat)
  | baseNotPositive
  | bitOutOfRange (offset : Int)
  deriving DecidableEq

inductive FragmentDefect where
  | zeroFragmentSize
  | noFragments
  | fragmentLargerThanSample (fragmentSize sampleSize : Nat)
  | windowPastEnd (starting count total : Nat)
  | payloadTooShort (needed available : Nat)
  deriving DecidableEq

inductive RtpsError where
  | badProtocolId (found : Bytes)
  | unsupportedProtocolVersion (major minor : UInt8)
  | truncated (needed available : Nat) (context : String)
  | submessageOverrun (id : UInt8) (declared available : Nat)
  | unalignedBody (id : UInt8) (bodyLen : Nat)
  | emptyBodyNotLast (id : UInt8)
  | misalignedSubmessage (offset : Nat)
  | tooLong (id : UInt8) (length maximum : Nat)
  | tooManySubmessages (maximum : Nat)
  | conflictingDataFlags
  | invalidSequenceNumber (value : Int) (context : String)
  | invalidSequenceNumberSet (reason : SetDefect) (context : String)
  | invalidFragmentNumber (value : Nat) (context : String)
  | invalidFragmentNumberSet (reason : SetDefect) (context : String)
  | invalidHeartbeatRange (first last : Int)
  | invalidFragmentGeometry (reason : FragmentDefect)
  | invalidOctetsToInlineQos (id : UInt8) (declared minimum : Nat)
  | cdr (reason : CdrError)
  deriving DecidableEq

def checkValid (number : Int) (context : String) : Except RtpsError Unit :=
  if 0 < number then .ok () else .error (.invalidSequenceNumber number context)

def maxSetBits : Nat := 256

structure SequenceNumberSet where
  base : Int
  window : Bitmap

namespace SequenceNumberSet

def new (base : Int) : SequenceNumberSet := ⟨base,Bitmap.empty⟩

def isEmpty (set : SequenceNumberSet) : Bool := set.window.isEmpty

def insert (set : SequenceNumberSet) (number : Int) : Except RtpsError SequenceNumberSet :=
  if within : set.base ≤ number ∧ number - set.base < 256 then
    .ok { set with window := set.window.mark ⟨(number - set.base).toNat,by omega⟩ }
  else
    .error (.invalidSequenceNumberSet (.bitOutOfRange (number - set.base))
      "SequenceNumberSet::insert")

def contains (set : SequenceNumberSet) (number : Int) : Bool :=
  decide (set.base ≤ number) && set.window.contains (number - set.base).toNat

def iter (set : SequenceNumberSet) : List Int :=
  set.window.positions.map fun (bit : Nat) => min (set.base + bit) i64Max

def validate (set : SequenceNumberSet) (context : String) : Except RtpsError Unit :=
  if set.base ≤ 0 then .error (.invalidSequenceNumberSet .baseNotPositive context)
  else .ok ()

@[simp] theorem contains_new (base seq : Int) : (new base).contains seq = false := by
  unfold contains
  rw [Bool.and_eq_false_iff]
  exact .inr rfl

variable {set : SequenceNumberSet} {seq : Int}

theorem contains_iff : set.contains seq = true ↔
      set.base ≤ seq ∧ (seq - set.base).toNat ∈ set.window.positions := by
  unfold contains
  rw [Bool.and_eq_true,decide_eq_true_eq,Bitmap.contains_iff]

theorem insert_eq (above : set.base ≤ seq) (below : seq - set.base < 256) :
    ∃ marked, set.insert seq = .ok marked ∧ marked.base = set.base ∧
      ∀ other, marked.contains other = true ↔ set.contains other = true ∨ other = seq := by
  have fits : (seq - set.base).toNat < 256 := by omega
  refine ⟨{ set with window := set.window.mark ⟨(seq - set.base).toNat,fits⟩ },?_,rfl,?_⟩
  · unfold insert
    rw [dif_pos ⟨above,below⟩]
  · intro _
    simp only [contains_iff,Bitmap.mem_positions_mark]
    constructor
    · rintro ⟨reached,held | here⟩
      · exact .inl ⟨reached,held⟩
      · right
        omega
    · rintro (⟨reached,held⟩ | here)
      · exact ⟨reached,.inl held⟩
      · subst here
        exact ⟨above,.inr rfl⟩

end SequenceNumberSet

structure FragmentNumberSet where
  base : Nat
  window : Bitmap

namespace FragmentNumberSet

def new (base : Nat) : FragmentNumberSet := ⟨base,Bitmap.empty⟩

def isEmpty (set : FragmentNumberSet) : Bool := set.window.isEmpty

def insert (set : FragmentNumberSet) (number : Nat) : Except RtpsError FragmentNumberSet :=
  if within : set.base ≤ number ∧ number - set.base < 256 then
    .ok { set with window := set.window.mark ⟨number - set.base,within.2⟩ }
  else
    .error (.invalidFragmentNumberSet (.bitOutOfRange ((number : Int) - set.base))
      "FragmentNumberSet::insert")

end FragmentNumberSet

/-! ### Submessages -/

/-- What a peer said that this build does not interpret. -/
structure Extension where
  reservedFlags : UInt8 := 0
  trailing : Bytes := []
  deriving DecidableEq

structure Parameter where
  id : Nat
  value : Bytes
  deriving DecidableEq

abbrev ParameterList := List Parameter

inductive DataPayload where
  | none
  | data (payload : Bytes)
  | key (payload : Bytes)
  deriving DecidableEq

def DataPayload.payload : DataPayload → Bytes
  | .none => []
  | .data payload => payload
  | .key payload => payload

structure Data where
  endianness : Endianness := .little
  extraFlags : Nat := 0
  readerId : EntityId
  writerId : EntityId
  writerSn : Int
  inlineQos : Option ParameterList := none
  payload : DataPayload
  nonStandardPayload : Bool := false
  extension : Extension := {}

structure DataFrag where
  endianness : Endianness := .little
  extraFlags : Nat := 0
  readerId : EntityId
  writerId : EntityId
  writerSn : Int
  fragmentStartingNum : Nat
  fragmentsInSubmessage : Nat
  fragmentSize : Nat
  sampleSize : Nat
  inlineQos : Option ParameterList := none
  payload : Bytes
  key : Bool := false
  nonStandardPayload : Bool := false
  extension : Extension := {}

structure Heartbeat where
  endianness : Endianness := .little
  isFinal : Bool := false
  liveliness : Bool := false
  readerId : EntityId
  writerId : EntityId
  firstSn : Int
  lastSn : Int
  count : Int
  extension : Extension := {}

structure AckNack where
  endianness : Endianness := .little
  isFinal : Bool := false
  readerId : EntityId
  writerId : EntityId
  readerSnState : SequenceNumberSet
  count : Int
  extension : Extension := {}

structure NackFrag where
  endianness : Endianness := .little
  readerId : EntityId
  writerId : EntityId
  writerSn : Int
  fragmentNumberState : FragmentNumberSet
  count : Int
  extension : Extension := {}

structure Gap where
  endianness : Endianness := .little
  readerId : EntityId
  writerId : EntityId
  gapStart : Int
  gapList : SequenceNumberSet
  extension : Extension := {}

structure InfoTimestamp where
  endianness : Endianness := .little
  timestamp : Option Time
  reservedFlags : UInt8 := 0

structure InfoDestination where
  endianness : Endianness := .little
  guidPrefix : GuidPrefix
  reservedFlags : UInt8 := 0

structure InfoSource where
  endianness : Endianness := .little
  unused : Nat := 0
  version : UInt8 × UInt8
  vendorId : UInt8 × UInt8
  guidPrefix : GuidPrefix
  reservedFlags : UInt8 := 0

inductive Submessage where
  | data (body : Data)
  | dataFrag (body : DataFrag)
  | heartbeat (body : Heartbeat)
  | ackNack (body : AckNack)
  | nackFrag (body : NackFrag)
  | gap (body : Gap)
  | infoTimestamp (body : InfoTimestamp)
  | infoSource (body : InfoSource)
  | infoDestination (body : InfoDestination)
  | other (id flags : UInt8) (body : Bytes)

structure Header where
  version : UInt8 × UInt8 := (2,3)
  vendorId : UInt8 × UInt8 := (65,83)
  guidPrefix : GuidPrefix

structure Message where
  header : Header
  submessages : List Submessage

def Data.validate (data : Data) : Except RtpsError Unit := checkValid data.writerSn "DATA writerSN"

namespace DataFrag

/-- The number of fragments a sample is cut into, the last one possibly short. -/
def totalFragments (fragment : DataFrag) : Option Nat :=
  if fragment.fragmentSize = 0 then none
  else some ((fragment.sampleSize + fragment.fragmentSize - 1) / fragment.fragmentSize)

/-- One past the last fragment number, at most the largest 32-bit number. -/
def fragmentEnd (fragment : DataFrag) : Nat :=
  min (fragment.fragmentStartingNum + fragment.fragmentsInSubmessage) 4294967295

def validate (fragment : DataFrag) : Except RtpsError Unit := do
  checkValid fragment.writerSn "DATA_FRAG writerSN"
  if fragment.fragmentStartingNum = 0 then
    throw (.invalidFragmentNumber fragment.fragmentStartingNum "DATA_FRAG fragmentStartingNum")
  if fragment.fragmentSize = 0 then
    throw (.invalidFragmentGeometry .zeroFragmentSize)
  if fragment.fragmentsInSubmessage = 0 then
    throw (.invalidFragmentGeometry .noFragments)
  if fragment.sampleSize < fragment.fragmentSize then
    throw (.invalidFragmentGeometry
      (.fragmentLargerThanSample fragment.fragmentSize fragment.sampleSize))
  match fragment.totalFragments with
  | none => throw (.invalidFragmentGeometry .zeroFragmentSize)
  | some total =>
    if total < fragment.fragmentEnd - 1 then
      throw (.invalidFragmentGeometry (.windowPastEnd fragment.fragmentStartingNum
        fragment.fragmentsInSubmessage total))
    -- Every fragment but the sample's last is full.
    let needed :=
      if fragment.fragmentEnd - 1 = total then
        (fragment.fragmentsInSubmessage - 1) * fragment.fragmentSize + 1
      else fragment.fragmentsInSubmessage * fragment.fragmentSize
    if fragment.payload.length < needed then
      throw (.invalidFragmentGeometry (.payloadTooShort needed fragment.payload.length))

end DataFrag

/-- The highest number such that everything up to it has arrived. -/
def AckNack.acknowledgedThrough (acknack : AckNack) : Int :=
  SequenceNumber.previous acknack.readerSnState.base

def AckNack.missing (acknack : AckNack) : List Int := acknack.readerSnState.iter

def Gap.validate (gap : Gap) : Except RtpsError Unit := do
  checkValid gap.gapStart "GAP gapStart"
  gap.gapList.validate "GAP gapList"

def numbersFrom (first : Int) (count : Nat) : List Int :=
  (List.range count).map fun (offset : Nat) => first + offset

def Gap.irrelevant (gap : Gap) : List Int :=
  numbersFrom gap.gapStart (gap.gapList.base - gap.gapStart).toNat ++ gap.gapList.iter

def Gap.covers (gap : Gap) (number : Int) : Bool :=
  (decide (gap.gapStart ≤ number) && decide (number < gap.gapList.base)) ||
    gap.gapList.contains number

@[simp] theorem mem_numbersFrom {first seq : Int} {count : Nat} :
    seq ∈ numbersFrom first count ↔ first ≤ seq ∧ seq < first + count := by
  unfold numbersFrom
  rw [List.mem_map]
  constructor
  · rintro ⟨_,within,_⟩
    have below := List.mem_range.mp within
    omega
  · rintro ⟨_,_⟩
    exact ⟨(seq - first).toNat,List.mem_range.mpr (by omega),by omega⟩

end Astrs.Rtps
