/-
Reading back what was written.

The reader refuses a count whose elements cannot all be there; what makes the counts of
the writer pass is that no element takes less than the floor of its type, and at least
one octet.
-/

import Astrs.Cdr.Layout

namespace Astrs.Cdr

open Astrs.Base List Encoding CdrWriter AtLeast Get Reads

variable {code : Encoding} {type : CdrType}

theorem Layout.delimited_ok {body : CdrPut} {spot : Nat} {items : Bytes}
    (done : Layout.delimited code body spot = .ok items) :
    ∃ inner front, body (spot + front.length) = .ok inner ∧ inner.length ≤ 4294967295 ∧
      Layout.word code 4 inner.length spot = .ok front ∧ items = front ++ inner := by
  obtain ⟨inner,written,framed⟩ := bind_ok done
  split at framed
  · rename_i small
    cases framed
    refine ⟨inner,_,?_,small,rfl,rfl⟩
    rw [length_append,length_replicate,length_octets,← Nat.add_assoc]
    exact written
  · cases framed

/-! ### Floors -/

namespace Floor

theorem word (width value : Nat) : AtLeast width (Layout.word code width value) := by
  have whole := (zero (Layout.padding code width)).andThen
    (bytes (octets code.endianness width value))
  rw [length_octets,Nat.zero_add] at whole
  exact whole

variable {put : CdrPut} {least : Nat}

theorem require {count : Nat} {test : Prop} [Decidable test]
    {failure : CdrError} (inside : AtLeast count put) :
    AtLeast count ((Put.require test failure).andThen put) := by
  have whole := (zero (Put.require test failure)).andThen inside
  rw [Nat.zero_add] at whole
  exact whole

theorem count (length : Nat) : AtLeast 4 (Layout.count code length) := require (word 4 length)

theorem text (items : Bytes) : AtLeast (4 + (items.length + 1)) (Layout.text code items) := by
  have body : AtLeast (items ++ [0]).length (Put.bytes (items ++ [0]) : CdrPut) := bytes _
  rw [length_append] at body
  exact require ((count _).andThen body)

theorem items {α : Type} {put : α → CdrPut} {values : List α} :
    AtLeast 4 (Layout.items code put values) :=
  ((count values.length).andThen (zero _)).mono (Nat.le_refl _)

theorem delimited (put : CdrPut) (inside : AtLeast least put) :
    AtLeast (4 + least) (Layout.delimited code put) := by
  intro _ _ done
  obtain ⟨_,_,wrote,_,header,rfl⟩ := Layout.delimited_ok done
  have above := word 4 _ _ _ header
  have long := inside _ _ wrote
  rw [length_append]
  omega

theorem delimitedIf (scope : Bool) (inside : AtLeast least put) :
    AtLeast least (Layout.delimitedIf code scope put) := by
  unfold Layout.delimitedIf
  split
  · exact (delimited put inside).mono (Nat.le_add_left _ _)
  · exact inside

theorem array {α : Type} {put : α → CdrPut} {count : Nat} (values : List.Vector α count)
    (each : ∀ value, AtLeast least (put value)) :
    AtLeast (count * least) (Put.each put values.toList) := by
  have whole : AtLeast (values.toList.length * least) (Put.each put values.toList) :=
    AtLeast.each fun value _ => each value
  rw [List.Vector.toList_length] at whole
  exact whole

theorem primitive (kind : Primitive) (value : kind.Value) :
    AtLeast kind.octets (Layout.primitive code kind value) := by
  cases kind with
  | bool | u8 | i8 => exact bytes _
  | u16 | i16 => exact word 2 _
  | u32 | i32 | f32 => exact word 4 _
  | u64 | i64 | f64 => exact word 8 _

end Floor

theorem saturatingAdd_le (left right : Nat) : saturatingAdd left right ≤ left + right :=
  Nat.min_le_left _ _

mutual

theorem CdrType.layout_floor (code : Encoding) (type : CdrType) (value : type.Value) :
    AtLeast type.minSerializedSize (type.layout code value) := by
  cases type with
  | primitive kind => exact Floor.primitive kind value
  | string => exact (Floor.text _).mono (by change 5 ≤ _; omega)
  | boundedString => exact Floor.require ((Floor.text _).mono (by change 5 ≤ _; omega))
  | wstring => exact Floor.items
  | boundedWString => exact Floor.require Floor.items
  | sequence => exact Floor.delimitedIf _ Floor.items
  | boundedSequence => exact Floor.require (Floor.delimitedIf _ Floor.items)
  | array element =>
    have each := Floor.array value fun item => element.layout_floor code item
    exact Floor.delimitedIf _ (each.mono (Nat.min_le_left _ _))
  | struct extensibility members =>
    have ⟨least,floor,below⟩ := members.layout_floor code value 0
    exact Floor.delimitedIf _ (floor.mono (by rw [Nat.zero_add] at below; exact below))
termination_by structural type

theorem Members.layout_floor (code : Encoding) (members : Members) (value : members.Values)
    (sofar : Nat) : ∃ least, AtLeast least (members.layout code value) ∧
      members.minSerializedSize sofar ≤ sofar + least := by
  cases members with
  | nil => exact ⟨0,zero _,Nat.le_refl _⟩
  | cons mem others =>
    have first := mem.layout_floor code (Prod.fst value)
    have ⟨least,floor,below⟩ := others.layout_floor code (Prod.snd value)
      (saturatingAdd sofar mem.minSerializedSize)
    have sum := saturatingAdd_le sofar mem.minSerializedSize
    refine ⟨mem.minSerializedSize + least,first.andThen floor,Nat.le_trans below ?_⟩
    omega
termination_by structural members

end

mutual

/-- Whether every value of the type takes an octet at least. -/
def CdrType.occupies (encoding : Encoding) : CdrType → Bool
  | .array element count =>
    (encoding.isV2 && !element.isPrimitive) || (decide (0 < count) && element.occupies encoding)
  | .struct extensibility members =>
    (encoding.isV2 && extensibility.hasDheader) || members.occupy encoding
  | _ => true
termination_by structural type => type

def Members.occupy (encoding : Encoding) : Members → Bool
  | .nil => false
  | .cons member others => member.occupies encoding || others.occupy encoding
termination_by structural members => members

end

mutual

def CdrType.elementsOccupy (encoding : Encoding) : CdrType → Bool
  | .sequence element => element.occupies encoding && element.elementsOccupy encoding
  | .boundedSequence element _ => element.occupies encoding && element.elementsOccupy encoding
  | .array element _ => element.elementsOccupy encoding
  | .struct _ members => members.elementsOccupy encoding
  | _ => true
termination_by structural type => type

def Members.elementsOccupy (encoding : Encoding) : Members → Bool
  | .nil => true
  | .cons member others => member.elementsOccupy encoding && others.elementsOccupy encoding
termination_by structural members => members

end

theorem Floor.scope {scope : Bool} (enclosed : (code.isV2 && scope) = true)
    (put : CdrPut) : AtLeast 1 (Layout.delimitedIf code scope put) := by
  unfold Layout.delimitedIf
  rw [if_pos enclosed]
  exact (Floor.delimited put (zero put)).mono (by omega)

theorem Primitive.octets_pos (kind : Primitive) : 1 ≤ kind.octets := by
  cases kind <;> decide

mutual

theorem CdrType.layout_occupied (code : Encoding) (type : CdrType) (value : type.Value)
    (occupied : type.occupies code = true) : AtLeast 1 (type.layout code value) := by
  cases type with
  | primitive kind => exact (Floor.primitive kind value).mono kind.octets_pos
  | string | boundedString _ | wstring | boundedWString _ | sequence _ | boundedSequence _ _ =>
    exact (CdrType.layout_floor code _ value).mono (Nat.le_of_ble_eq_true rfl)
  | array element count =>
    cases Bool.or_eq_true_iff.mp occupied with
    | inl enclosed => exact Floor.scope enclosed _
    | inr filled =>
      rw [Bool.and_eq_true,decide_eq_true_eq] at filled
      have each := Floor.array value fun item =>
        element.layout_occupied code item filled.2
      exact Floor.delimitedIf _ (each.mono (by omega))
  | struct extensibility members =>
    cases Bool.or_eq_true_iff.mp occupied with
    | inl enclosed => exact Floor.scope enclosed _
    | inr filled => exact Floor.delimitedIf _ (members.layout_occupied code value filled)
termination_by structural type

theorem Members.layout_occupied (code : Encoding) (members : Members) (value : members.Values)
    (occupied : members.occupy code = true) : AtLeast 1 (members.layout code value) := by
  cases members with
  | nil => cases occupied
  | cons mem others =>
    cases Bool.or_eq_true_iff.mp occupied with
    | inl first =>
      have front := mem.layout_occupied code (Prod.fst value) first
      exact front.andThen (zero _)
    | inr rest =>
      have back := others.layout_occupied code (Prod.snd value) rest
      exact (zero _).andThen back
termination_by structural members

end

/-! ### Reading back -/

namespace Recovers

theorem padding (room natural : Nat) :
    Reads room (code.skipPadding natural) (Layout.padding code natural) () := by
  intro spot _ back follows done
  cases done
  have taken := take room (List.replicate (paddingTo spot (code.alignFor natural)) 0)
    (fun available => CdrError.truncated (paddingTo spot (code.alignFor natural)) available
      "alignment padding") spot _ back follows rfl
  rw [length_replicate] at taken ⊢
  unfold skipPadding takeArray
  dsimp only
  rw [taken]
  rfl

theorem octets (room : Nat) (items : Bytes) (context : String) :
    Reads room (takeArray items.length context) (Put.bytes items) items :=
  take room items _

theorem word (room : Nat) {width value : Nat} (fits : value < 256 ^ width) (context : String) :
    Reads room (code.readWord width context) (Layout.word code width value) value := by
  have taken := octets room (Cdr.octets code.endianness width value) context
  rw [length_octets] at taken
  have found := taken.result (ofOctets code.endianness)
  rw [ofOctets_octets _ fits] at found
  exact (padding 0 width).bind found (zero _) (Nat.zero_le _)

theorem bits (room : Nat) {size width : Nat} (fits : 2 ^ size ≤ 256 ^ width) (value : BitVec size)
    (context : String) :
    Reads room (BitVec.ofNat size <$> code.readWord width context)
      (Layout.word code width value.toNat) value := by
  have read : Reads room (code.readWord width context) _ value.toNat :=
    word room (Nat.lt_of_lt_of_le value.isLt fits) context
  have found := read.map (BitVec.ofNat size)
  rw [BitVec.ofNat_toNat,BitVec.setWidth_eq] at found
  exact found

/-- A count is accepted when its elements, at their floor, follow. -/
theorem count (elementMin length : Nat) (context : String) :
    Reads (length * max elementMin 1) (code.readSequenceLen elementMin context)
      (Layout.count code length) length := by
  apply given
  intro small _ _ back follows done
  have fits : length < 256 ^ 4 := Nat.lt_of_le_of_lt small (by decide)
  have enough : min (length * max elementMin 1) 18446744073709551615 ≤ back.length :=
    Nat.le_trans (Nat.min_le_left _ _) follows
  unfold readSequenceLen
  rw [bind_of_ok (word 0 fits _ _ _ back (Nat.zero_le _) done)]
  rw [remaining_bind,require_bind enough]
  rfl

theorem textOf {value : String} (clean : Layout.interiorNul (utf8 value) = none) :
    Encoding.textOf (utf8 value ++ [0]) = pure value := by
  have ended : (utf8 value ++ [0]).getLast? = some 0 := by simp
  have whole : String.fromUTF8? ⟨(utf8 value).toArray⟩ = some value := by
    exact dif_pos value.isValidUTF8
  unfold Layout.interiorNul at clean
  unfold Encoding.textOf
  rw [require_bind ended,List.dropLast_concat,clean,whole]

theorem text (room : Nat) (value : String) :
    Reads room code.readStr (Layout.text code (utf8 value)) value := by
  apply given
  intro clean
  have body : Reads room (do
      require ((utf8 value).length + 1 ≠ 0) .missingNulTerminator
      let raw ← takeArray ((utf8 value).length + 1) "raw octets"
      Encoding.textOf raw) (Put.bytes (utf8 value ++ [0])) value := by
    have taken := octets room (utf8 value ++ [0]) "raw octets"
    rw [length_append,length_singleton] at taken
    rw [require_bind (Nat.succ_ne_zero _)]
    intro _ _ _ follows done
    rw [bind_of_ok (taken _ _ _ follows done),textOf clean]
    rfl
  exact (count 1 _ "string").bind body (bytes _) (by simp)

theorem unit (index : Nat) (value : BitVec 16) :
    Reads 0 (code.readUnit index) (Layout.wchar code value) value := by
  unfold readUnit Layout.wchar
  cases code.wcharWidth with
  | two => exact bits 0 (by decide) value "u16"
  | four =>
    have narrow : (value.setWidth 32).toNat = value.toNat := by
      rw [BitVec.toNat_setWidth]
      omega
    have small : (value.setWidth 32).toNat < 65536 := by
      exact value.isLt
    have back : (value.setWidth 32).setWidth 16 = value := by
      apply BitVec.eq_of_toNat_eq
      rw [BitVec.toNat_setWidth,narrow]
      omega
    have read : Reads 0 code.readU32 _ (value.setWidth 32) := bits 0 (by decide) _ "u32"
    intro _ _ _ follows done
    change (code.readU32 >>= _) _ = _
    rw [bind_of_ok (read _ _ _ follows done),if_pos small,back]
    rfl

theorem units (index : Nat) (values : List (BitVec 16)) :
    Reads 0 (code.readUnits index values.length) (Put.each (Layout.wchar code) values)
      values := by
  induction values generalizing index with
  | nil => exact pure 0 _
  | cons value values ih =>
    exact (unit index value).bind ((ih (index + 1)).result _) (zero _) (Nat.zero_le _)

theorem wstring (values : List (BitVec 16)) :
    Reads 0 code.readWstring (Layout.items code (Layout.wchar code) values) values := by
  have each : AtLeast (values.length * code.wcharWidth.octets)
      (Put.each (Layout.wchar code) values) :=
    AtLeast.each fun value _ => Floor.word _ _
  have wide : max code.wcharWidth.octets 1 = code.wcharWidth.octets := by
    cases code.wcharWidth <;> rfl
  have counted : Reads (values.length * max code.wcharWidth.octets 1)
      (code.readSequenceLen code.wcharWidth.octets "wstring") _ values.length :=
    count code.wcharWidth.octets values.length "wstring"
  rw [wide] at counted
  exact counted.bind (units 0 values) each (Nat.le_refl _)

variable {α : Type}

section

variable {get : CdrGet α} {put : α → CdrPut} {elementMin : Nat}
  (floor : ∀ value, AtLeast elementMin (put value)) (occupied : ∀ value, AtLeast 1 (put value))
  (read : ∀ value, Reads 0 get (put value) value)
include floor occupied read

variable {values : List α}

theorem elements (context : String) (check : Nat → Except CdrError Unit)
    (passes : check values.length = .ok ()) :
    Reads 0 (do
      let count ← code.readSequenceLen elementMin context
      check count
      List.Vector.toList <$> times get count) (Layout.items code put values) values := by
  have each : AtLeast (values.length * max elementMin 1) (Put.each put values) := by
    apply AtLeast.each
    intro value _ _ _ done
    exact Nat.max_le.mpr ⟨floor value _ _ done,occupied value _ _ done⟩
  have inOrder : Reads 0 (List.Vector.toList <$> times get values.length)
      (Put.each put values) values :=
    (times ⟨values,rfl⟩ fun value _ => read value).map List.Vector.toList
  have body : Reads 0 (do
      check values.length
      List.Vector.toList <$> times get values.length : CdrGet (List α))
      (Put.each put values) values := by
    rw [passes]
    exact inOrder
  exact (count elementMin values.length context).bind body each (Nat.le_refl _)

theorem sequence :
    Reads 0 (code.readSequenceBody elementMin get) (Layout.items code put values) values :=
  elements floor occupied read "sequence" (fun _ => .ok ()) rfl

end

section

variable {get : CdrGet α} {put : CdrPut} {value : α}

theorem delimited (second : code.isV2 = true) (inside : Reads 0 get put value) :
    Reads 0 (code.delimited get) (Layout.delimited code put) value := by
  intro spot _ back _ done
  obtain ⟨inner,front,wrote,small,header,rfl⟩ := Layout.delimited_ok done
  have fits : inner.length < 256 ^ 4 := Nat.lt_of_le_of_lt small (by decide)
  have reach : inner.length ≤ (inner ++ back).length := by simp
  have declared : code.readDheader ⟨spot,front ++ (inner ++ back)⟩ =
      .ok (inner.length,⟨spot + front.length,inner ++ back⟩) := by
    unfold readDheader
    rw [require_bind second,bind_of_ok (word 0 fits _ _ _ _ (Nat.zero_le _) header),
      remaining_bind,require_bind reach]
    rfl
  unfold Encoding.delimited
  rw [append_assoc,bind_of_ok declared,inside.within wrote,length_append,Nat.add_assoc]

theorem delimitedIf (scope : Bool) (inside : Reads 0 get put value) :
    Reads 0 (code.delimitedIf scope get) (Layout.delimitedIf code scope put) value := by
  unfold Encoding.delimitedIf Layout.delimitedIf
  by_cases enclosed : (code.isV2 && scope) = true
  · rw [if_pos enclosed,if_pos enclosed]
    rw [Bool.and_eq_true] at enclosed
    exact delimited enclosed.1 inside
  · rw [if_neg enclosed,if_neg enclosed]
    exact inside

theorem bounded (size : α → Nat) (bound : Nat) (context : String) (inside : Reads 0 get put value) :
    Reads 0 (readChecked size bound context get)
      (Layout.bounded (size value) bound context put) value := by
  apply given
  intro _ _ _ _ follows done
  have passes : checkBound (size value) bound context = .ok () := if_neg (by omega)
  unfold readChecked
  rw [bind_of_ok (inside _ _ _ follows done),passes]
  rfl

end

theorem octet (value : BitVec 8) : Reads 0 readU8 (Put.bytes [UInt8.ofBitVec value]) value := by
  have found := (octets 0 [UInt8.ofBitVec value] "u8").result
    fun taken => BitVec.ofNat 8 (ofOctets .little taken)
  have same : BitVec.ofNat 8 (ofOctets .little [UInt8.ofBitVec value]) = value := by
    apply BitVec.eq_of_toNat_eq
    change ((UInt8.ofBitVec value).toNat + 256 * 0) % 2 ^ 8 = value.toNat
    exact Nat.mod_eq_of_lt value.isLt
  rw [same] at found
  exact found

theorem primitive (kind : Primitive) (value : kind.Value) :
    Reads 0 (kind.deserialize code) (Layout.primitive code kind value) value := by
  cases kind with
  | bool =>
    intro _ _ _ _ done
    cases value <;> cases done <;> rfl
  | u8 | i8 => exact octet value
  | u16 | i16 => exact bits 0 (by decide) _ "u16"
  | u32 | i32 | f32 => exact bits 0 (by decide) _ "u32"
  | u64 | i64 | f64 => exact bits 0 (by decide) _ "u64"

end Recovers

mutual

theorem CdrType.deserialize_reads (code : Encoding) (type : CdrType) (value : type.Value)
    (occupied : type.elementsOccupy code = true) :
    Reads 0 (type.deserialize code) (type.layout code value) value := by
  cases type with
  | primitive kind => exact Recovers.primitive kind value
  | string => exact Recovers.text 0 value
  | wstring => exact Recovers.wstring value
  | boundedString bound =>
    exact Recovers.bounded (fun text => (utf8 text).length) bound _
      (Recovers.text 0 value)
  | boundedWString bound => exact Recovers.bounded List.length bound _ (Recovers.wstring value)
  | sequence element =>
    have ⟨filled,below⟩ := Bool.and_eq_true_iff.mp occupied
    exact Recovers.delimitedIf _ (Recovers.sequence (fun item => element.layout_floor code item)
      (fun item => element.layout_occupied code item filled)
      (fun item => element.deserialize_reads code item below))
  | boundedSequence element bound =>
    have ⟨filled,below⟩ := Bool.and_eq_true_iff.mp occupied
    apply given
    intro fits
    exact Recovers.delimitedIf _ (Recovers.elements (fun item => element.layout_floor code item)
      (fun item => element.layout_occupied code item filled)
      (fun item => element.deserialize_reads code item below) _
      (fun count => checkBound count bound "sequence<T, N>") (if_neg (Nat.not_lt.mpr fits)))
  | array element =>
    exact Recovers.delimitedIf _ (times value fun item _ =>
      element.deserialize_reads code item occupied)
  | struct extensibility members =>
    exact Recovers.delimitedIf _ (members.deserialize_reads code value occupied)
termination_by structural type

theorem Members.deserialize_reads (code : Encoding) (members : Members) (value : members.Values)
    (occupied : members.elementsOccupy code = true) :
    Reads 0 (members.deserialize code) (members.layout code value) value := by
  cases members with
  | nil => exact pure 0 _
  | cons mem others =>
    have ⟨first,rest⟩ := Bool.and_eq_true_iff.mp occupied
    have front := mem.deserialize_reads code (Prod.fst value) first
    have back := others.deserialize_reads code (Prod.snd value) rest
    exact front.bind (back.result _) (zero _) (Nat.zero_le _)
termination_by structural members

end

/-! ### Payloads -/

theorem serialize_new (type : CdrType) (value : type.Value) (code : Encoding) :
    type.serialize value (new code) =
      (type.layout code value 0).map fun items => (new code).pushSlice items :=
  type.serialize_appends code value (new code) rfl (Nat.le_refl _)

theorem serialize_measuring (type : CdrType) (value : type.Value) (code : Encoding) :
    type.serialize value (measuring code) =
      (type.layout code value 0).map fun items =>
        (measuring code).pushSlice items :=
  type.serialize_appends code value (measuring code) rfl (Nat.le_refl _)

theorem toVec_ok {value : type.Value} {bytes : Bytes}
    (accepted : toVec type value code = .ok bytes) :
    ∃ items, type.layout code value 0 = .ok items ∧
      bytes = (EncapsulationHeader.new code.kind).toBytes ++ items := by
  obtain ⟨_,serialized,rfl⟩ := map_ok accepted
  rw [serialize_new] at serialized
  obtain ⟨items,laid,rfl⟩ := map_ok serialized
  exact ⟨items,laid,rfl⟩

theorem fromBytes_ok {value : type.Value} {header : EncapsulationHeader}
    {items : Bytes} (small : header.options < 65536)
    (occupied : type.elementsOccupy (new header.kind) = true)
    (laid : type.layout (new header.kind) value 0 = .ok items) (pad : Bytes)
    (announced : pad.length = header.padding) :
    fromBytes type (header.toBytes ++ (items ++ pad)) = .ok value := by
  have body : (header.toBytes ++ (items ++ pad)).drop 4 = items ++ pad :=
    drop_left' (EncapsulationHeader.length_toBytes header)
  have opened : openPayload (header.toBytes ++ (items ++ pad)) =
      .ok (new header.kind,⟨0,items⟩) := by
    unfold openPayload
    rw [EncapsulationHeader.fromBytes_append small,body]
    change (if (items ++ pad).length < header.padding then Except.error _ else Except.ok _) = _
    rw [if_neg (by rw [length_append]; omega),length_append,← announced,
      Nat.add_sub_cancel,take_left' rfl]
  have read := type.deserialize_reads _ value occupied 0 items [] (Nat.le_refl _) laid
  rw [append_nil] at read
  unfold fromBytes
  rw [opened]
  change (type.deserialize (new header.kind) ⟨0,items⟩ >>= _) = _
  rw [read]
  rfl

theorem paddingTo_four_lt (spot : Nat) : paddingTo spot 4 < 4 := Nat.mod_lt _ (by decide)

/-- The padded payload: the same value, zeros behind it, and their number in the header. -/
theorem finishPadded_pushSlice (second : code.isV2 = true) (items : Bytes) :
    ((new code).pushSlice items).finishPadded =
      (EncapsulationHeader.mk code.kind (paddingTo items.length 4)).toBytes ++
        (items ++ List.replicate (paddingTo items.length 4) 0) := by
  have bounded := paddingTo_four_lt items.length
  have reached : ((new code).pushSlice items).position = items.length := by
    rw [position_pushSlice (Nat.le_refl _)]
    exact Nat.zero_add _
  have recorded : EncapsulationHeader.withPadding 0 (paddingTo items.length 4) =
      paddingTo items.length 4 := by
    unfold EncapsulationHeader.withPadding
    omega
  have identifier : (octets .big 2 code.kind.identifier).length = 2 := length_octets _ _ _
  have filled : ((Sink.buffer []).pushSlice (octets .big 2 code.kind.identifier ++ octets .big 2 0 ++
      (items ++ List.replicate (paddingTo items.length 4) 0))).patch
        (0 + (octets .big 2 code.kind.identifier).length)
        (octets .big 2 (paddingTo items.length 4)) = _ :=
    Sink.patch_pushSlice (.buffer []) _ (by simp)
  have pushed : ((new code).pushSlice items).sink.pushZeros (paddingTo items.length 4) =
      (Sink.buffer []).pushSlice (octets .big 2 code.kind.identifier ++ octets .big 2 0 ++
        (items ++ List.replicate (paddingTo items.length 4) 0)) := by
    rfl
  unfold finishPadded
  dsimp only
  rw [reached,pushed,show ((new code).pushSlice items).encoding.isV2 = true from second,
    show ((new code).pushSlice items).headerAt = some 0 from rfl]
  dsimp only
  rw [recorded]
  rw [identifier] at filled
  by_cases needed : 0 < paddingTo items.length 4
  · rw [if_pos needed,filled]
    rfl
  · have none : paddingTo items.length 4 = 0 := by omega
    rw [if_neg needed,none,replicate_zero,append_nil]
    rfl

/-- Every value that is accepted comes back from its payload, and from the padded payload of the
second version, and is measured exactly. -/
theorem payload_round_trip (type : CdrType) (kind : EncapsulationKind) (value : type.Value)
    (bytes : Bytes) (occupied : type.elementsOccupy (Encoding.new kind) = true)
    (accepted : toVec type value (Encoding.new kind) = .ok bytes) :
    fromBytes type bytes = .ok value ∧
      (kind.version = .xcdr2 → ∃ padded, toVecPadded type value (Encoding.new kind) = .ok padded ∧
        fromBytes type padded = .ok value) ∧
      serializedSize type value (Encoding.new kind) = .ok bytes.length := by
  obtain ⟨items,laid,rfl⟩ := toVec_ok accepted
  constructor
  · have read := @fromBytes_ok _ value (EncapsulationHeader.new kind) _ (Nat.zero_lt_succ _) occupied
      laid [] rfl
    rw [append_nil] at read
    exact read
  constructor
  · intro second
    have bounded := paddingTo_four_lt items.length
    have v2 : (new kind).isV2 = true := by
      change kind.version.isV2 = true
      rw [second]
      rfl
    refine ⟨_,?_,@fromBytes_ok _ value (EncapsulationHeader.mk kind (paddingTo items.length 4)) _
      ?_ occupied laid (List.replicate (paddingTo items.length 4) 0) ?_⟩
    · unfold toVecPadded
      rw [serialize_new,laid]
      change Except.ok _ = Except.ok _
      rw [finishPadded_pushSlice v2]
      rfl
    · change paddingTo items.length 4 < 65536
      omega
    · change _ = paddingTo items.length 4 % 4
      rw [length_replicate,Nat.mod_eq_of_lt bounded]
  · unfold serializedSize
    rw [serialize_measuring,laid]
    change Except.ok (written _) = Except.ok _
    unfold written
    rw [len_pushSlice,length_append]
    rfl

/-- A message with an octet, a sequence of named readings and an array of short numbers. -/
def readings : CdrType := .struct .appendable (.cons (.primitive .u8) (.cons
    (.sequence (.struct .final (.cons .string (.cons (.primitive .f64) .nil))))
    (.cons (.array (.primitive .i16) 3) .nil)))

def twoReadings : readings.Value := (7#8,[("a",1#64,()),("bc",2#64,())],⟨[1#16,2#16,3#16],rfl⟩,())

theorem two_readings_round_trip : readings.elementsOccupy (Encoding.new .dCdr2Le) = true ∧
      ∃ bytes, toVec readings twoReadings (Encoding.new .dCdr2Le) = .ok bytes ∧
        bytes.length = 58 ∧ fromBytes readings bytes = .ok twoReadings ∧
        (∃ padded, toVecPadded readings twoReadings (Encoding.new .dCdr2Le) = .ok padded ∧
          fromBytes readings padded = .ok twoReadings) ∧
        serializedSize readings twoReadings (Encoding.new .dCdr2Le) = .ok bytes.length := by
  have occupied : readings.elementsOccupy (new .dCdr2Le) = true := by decide
  have sized : (toVec readings twoReadings (new .dCdr2Le)).toOption.map List.length =
      some 58 := by decide +kernel
  cases accepted : toVec readings twoReadings (new .dCdr2Le) with
  | error =>
    rw [accepted] at sized
    cases sized
  | ok bytes =>
    rw [accepted] at sized
    have whole := payload_round_trip readings .dCdr2Le twoReadings bytes occupied accepted
    exact ⟨occupied,bytes,rfl,Option.some.inj sized,whole.1,whole.2.1 rfl,whole.2.2⟩

end Astrs.Cdr
