/-
What a value looks like in the stream, as octets by position.

The writer appends exactly this, whether its sink keeps the octets or counts them: the
length slot of a scope is filled in afterwards, and the counter takes the same steps.
-/

import Astrs.Cdr.Types

namespace Astrs.Cdr

open Astrs.Base CdrWriter

abbrev CdrPut := Put CdrError

namespace Layout

def padding (encoding : Encoding) (natural : Nat) : CdrPut := fun position =>
  .ok (List.replicate (paddingTo position (encoding.alignFor natural)) 0)

def word (encoding : Encoding) (width value : Nat) : CdrPut :=
  (padding encoding width).andThen (Put.bytes (octets encoding.endianness width value))

def count (encoding : Encoding) (length : Nat) : CdrPut :=
  (Put.require (length ≤ 4294967295) (.sequenceTooLong length 4294967295)).andThen
    (word encoding 4 length)

def interiorNul (items : Bytes) : Option Nat := items.findIdx? (· == 0)

def text (encoding : Encoding) (items : Bytes) : CdrPut :=
  (Put.require (interiorNul items = none) (.interiorNul ((interiorNul items).getD 0))).andThen
    ((count encoding (items.length + 1)).andThen (Put.bytes (items ++ [0])))

def wchar (encoding : Encoding) (value : BitVec 16) : CdrPut :=
  word encoding encoding.wcharWidth.octets value.toNat

def items {α : Type} (encoding : Encoding) (put : α → CdrPut) (values : List α) : CdrPut :=
  (count encoding values.length).andThen (Put.each put values)

def delimited (encoding : Encoding) (body : CdrPut) : CdrPut := fun position => do
  let pad := paddingTo position (encoding.alignFor 4)
  let inner ← body (position + pad + 4)
  if inner.length ≤ 4294967295 then
    return List.replicate pad 0 ++ octets encoding.endianness 4 inner.length ++ inner
  else .error (.sizeOverflow "writing a DHEADER")

def delimitedIf (encoding : Encoding) (scope : Bool) (body : CdrPut) : CdrPut :=
  if encoding.isV2 && scope then delimited encoding body else body

def bounded (actual bound : Nat) (context : String) (put : CdrPut) : CdrPut :=
  (Put.require (actual ≤ bound) (.boundExceeded bound actual context)).andThen put

def primitive (encoding : Encoding) : (kind : Primitive) → kind.Value → CdrPut
  | .bool,value => Put.bytes [cond value 1 0]
  | .u8,value => Put.bytes [UInt8.ofBitVec value]
  | .i8,value => Put.bytes [UInt8.ofBitVec value]
  | .u16,value => word encoding 2 (BitVec.toNat value)
  | .i16,value => word encoding 2 (BitVec.toNat value)
  | .u32,value => word encoding 4 (BitVec.toNat value)
  | .i32,value => word encoding 4 (BitVec.toNat value)
  | .f32,value => word encoding 4 (BitVec.toNat value)
  | .u64,value => word encoding 8 (BitVec.toNat value)
  | .i64,value => word encoding 8 (BitVec.toNat value)
  | .f64,value => word encoding 8 (BitVec.toNat value)

end Layout

mutual

def CdrType.layout (encoding : Encoding) : (type : CdrType) → type.Value → CdrPut
  | .primitive kind,value => Layout.primitive encoding kind value
  | .string,value => Layout.text encoding (utf8 value)
  | .wstring,value => Layout.items encoding (Layout.wchar encoding) value
  | .boundedString bound,value =>
    Layout.bounded (utf8 value).length bound "string<N>"
      (Layout.text encoding (utf8 value))
  | .boundedWString bound,value =>
    Layout.bounded (List.length value) bound "wstring<N>"
      (Layout.items encoding (Layout.wchar encoding) value)
  | .sequence element,value =>
    Layout.delimitedIf encoding (!element.isPrimitive)
      (Layout.items encoding (fun item => element.layout encoding item) value)
  | .boundedSequence element bound,value =>
    Layout.bounded (List.length value) bound "sequence<T, N>"
      (Layout.delimitedIf encoding (!element.isPrimitive)
        (Layout.items encoding (fun item => element.layout encoding item) value))
  | .array element _,value =>
    Layout.delimitedIf encoding (!element.isPrimitive)
      (Put.each (fun item => element.layout encoding item) (List.Vector.toList value))
  | .struct extensibility members,value =>
    Layout.delimitedIf encoding extensibility.hasDheader (members.layout encoding value)
termination_by structural type => type

def Members.layout (encoding : Encoding) : (members : Members) → members.Values → CdrPut
  | .nil,_ => Put.nothing
  | .cons member others,value =>
    (member.layout encoding (Prod.fst value)).andThen (others.layout encoding (Prod.snd value))
termination_by structural members => members

end

@[simp] theorem Sink.len_pushSlice (sink : Sink) (items : Bytes) :
    (sink.pushSlice items).len = sink.len + items.length := by
  cases sink with
  | buffer => simp [Sink.pushSlice,Sink.len]
  | counter => rfl

theorem Sink.pushZeros_eq (sink : Sink) (count : Nat) :
    sink.pushZeros count = sink.pushSlice (List.replicate count 0) := by
  cases sink with
  | buffer => rfl
  | counter => simp [Sink.pushZeros,Sink.pushSlice]

theorem Sink.pushSlice_nil (sink : Sink) : sink.pushSlice [] = sink := by
  cases sink with
  | buffer => simp [Sink.pushSlice]
  | counter => rfl

theorem Sink.pushSlice_pushSlice (sink : Sink) (front back : Bytes) :
    (sink.pushSlice front).pushSlice back = sink.pushSlice (front ++ back) := by
  cases sink with
  | buffer => simp [Sink.pushSlice]
  | counter => simp [Sink.pushSlice,Nat.add_assoc]

/-- Filling a slot in afterwards is writing it at once. -/
theorem Sink.patch_pushSlice (sink : Sink) {front slot filled : Bytes} (back : Bytes)
    (same : slot.length = filled.length) :
    (sink.pushSlice (front ++ slot ++ back)).patch (sink.len + front.length) filled =
      sink.pushSlice (front ++ filled ++ back) := by
  cases sink with
  | counter => simp [Sink.pushSlice,Sink.patch,same]
  | buffer held =>
    have cut : held ++ (front ++ slot ++ back) = (held ++ front) ++ (slot ++ back) := by simp
    have reach : (held ++ front).length + filled.length ≤
        ((held ++ front) ++ (slot ++ back)).length := by
      simp only [List.length_append]
      omega
    have after : ((held ++ front) ++ (slot ++ back)).drop ((held ++ front).length + filled.length) =
        back := by
      rw [← List.append_assoc,← same,← List.length_append]
      exact List.drop_left' rfl
    change Sink.patch (held.length + front.length) filled (.buffer _) = _
    unfold Sink.patch Sink.pushSlice
    dsimp only
    rw [cut,← List.length_append,if_pos reach,List.take_left' rfl,after]
    simp

namespace CdrWriter

variable (writer : CdrWriter)

@[simp] theorem origin_pushSlice (items : Bytes) :
    (writer.pushSlice items).origin = writer.origin := rfl

@[simp] theorem len_pushSlice (items : Bytes) :
    (writer.pushSlice items).sink.len = writer.sink.len + items.length :=
  Sink.len_pushSlice writer.sink items

theorem pushSlice_nil : writer.pushSlice [] = writer := by
  unfold pushSlice
  rw [Sink.pushSlice_nil]

theorem pushSlice_pushSlice (front back : Bytes) :
    (writer.pushSlice front).pushSlice back = writer.pushSlice (front ++ back) := by
  unfold pushSlice
  rw [Sink.pushSlice_pushSlice]

theorem pushZeros_eq (count : Nat) :
    writer.pushZeros count = writer.pushSlice (List.replicate count 0) := by
  unfold pushZeros pushSlice
  rw [Sink.pushZeros_eq]

theorem position_pushSlice {writer : CdrWriter} (behind : writer.origin ≤ writer.sink.len)
    (items : Bytes) : (writer.pushSlice items).position = writer.position + items.length := by
  unfold position
  rw [origin_pushSlice,len_pushSlice]
  omega

end CdrWriter

/-! ### What the writer appends -/

/-- The write appends what the layout gives at the writer's position. -/
def Appends (encoding : Encoding) (write : CdrWriter → Written) (put : CdrPut) : Prop :=
  ∀ writer : CdrWriter, writer.encoding = encoding → writer.origin ≤ writer.sink.len →
    write writer = (put writer.position).map fun items => writer.pushSlice items

namespace Appends

variable {code : Encoding}

theorem nothing : Appends code .ok Put.nothing := by
  intro writer _ _
  change _ = Except.ok (writer.pushSlice [])
  rw [pushSlice_nil]

theorem bytes (items : Bytes) :
    Appends code (fun writer => .ok (writer.pushSlice items)) (Put.bytes items) := by
  intro _ _ _
  rfl

theorem andThen {first second : CdrWriter → Written} {front back : CdrPut}
    (begun : Appends code first front) (finished : Appends code second back) :
    Appends code (fun writer => first writer >>= second) (front.andThen back) := by
  intro writer same behind
  change (first writer >>= second) = _
  rw [begun writer same behind]
  cases done : front writer.position with
  | error =>
    rw [Put.andThen_of_error done]
    rfl
  | ok items =>
    have still : (writer.pushSlice items).origin ≤ (writer.pushSlice items).sink.len := by
      rw [origin_pushSlice,len_pushSlice]
      omega
    rw [Put.andThen_of_ok done]
    change second (writer.pushSlice items) = _
    rw [finished (writer.pushSlice items) same still,position_pushSlice behind]
    cases back (writer.position + items.length) with
    | error => rfl
    | ok more =>
      change Except.ok ((writer.pushSlice items).pushSlice more) = _
      rw [pushSlice_pushSlice]
      rfl

variable {write body : CdrWriter → Written} {put : CdrPut}

theorem require {test : Prop} [Decidable test] {failure : CdrError}
    (appends : test → Appends code write put) :
    Appends code (fun writer => if test then write writer else .error failure)
      ((Put.require test failure).andThen put) := by
  intro writer same behind
  by_cases holds : test
  · rw [Put.require_andThen holds]
    change (if test then write writer else _) = _
    rw [if_pos holds]
    exact appends holds writer same behind
  · have refused : Put.require test failure writer.position = .error failure := if_neg holds
    rw [Put.andThen_of_error refused]
    exact if_neg holds

theorem forEach {α : Type} {write : α → CdrWriter → Written} {put : α → CdrPut} {items : List α}
    (each : ∀ item ∈ items, Appends code (write item) (put item)) :
    Appends code (CdrWriter.forEach write items) (Put.each put items) := by
  induction items with
  | nil => exact nothing
  | cons item items ih =>
    have one : Appends code (write item) (put item) := each item List.mem_cons_self
    have others : Appends code (CdrWriter.forEach write items) (Put.each put items) :=
      ih fun other mem => each other (List.mem_cons_of_mem _ mem)
    exact one.andThen others

theorem word (width value : Nat) :
    Appends code (writeWord width value) (Layout.word code width value) := by
  intro _ same _
  subst same
  unfold Layout.word
  change Except.ok _ = Except.ok _
  unfold CdrWriter.align
  rw [pushZeros_eq,pushSlice_pushSlice]

theorem count (length : Nat) : Appends code (writeSequenceLen length) (Layout.count code length) :=
  require fun _ => word 4 length

theorem text (value : String) : Appends code (writeStr value) (Layout.text code (utf8 value)) := by
  intro writer same behind
  unfold Layout.text writeStr Layout.interiorNul
  cases (utf8 value).findIdx? (· == 0) with
  | some => rfl
  | none =>
    have body : Appends code
        (fun writer => .ok ((writer.pushSlice (utf8 value)).pushSlice [0]))
        (Put.bytes (utf8 value ++ [0])) := by
      intro other _ _
      change Except.ok ((other.pushSlice (utf8 value)).pushSlice [0]) = _
      rw [pushSlice_pushSlice]
      rfl
    rw [Put.require_andThen rfl]
    exact (count _).andThen body writer same behind

theorem wchar (value : BitVec 16) : Appends code (writeWchar value) (Layout.wchar code value) := by
  intro writer same behind
  unfold writeWchar Layout.wchar
  rw [same]
  cases code.wcharWidth with
  | two => exact word 2 _ writer same behind
  | four =>
    have _ : (value.setWidth 32).toNat = value.toNat := by
      rw [BitVec.toNat_setWidth]
      omega
    change writeWord 4 (value.setWidth 32).toNat writer = _
    exact word 4 _ writer same behind

theorem items {α : Type} {write : α → CdrWriter → Written} {put : α → CdrPut} {values : List α}
    (each : ∀ item ∈ values, Appends code (write item) (put item)) :
    Appends code (writeSequenceBody write values) (Layout.items code put values) :=
  (count values.length).andThen (forEach each)

theorem fillLength_pushSlice (writer : CdrWriter) (front inner : Bytes) :
    (writer.pushSlice (front ++ List.replicate 4 0 ++ inner)).fillLength
        (writer.sink.len + front.length) (writer.sink.len + (front ++ List.replicate 4 0).length) =
      if inner.length ≤ 4294967295 then
        .ok (writer.pushSlice (front ++ octets writer.encoding.endianness 4 inner.length ++ inner))
      else .error (.sizeOverflow "writing a DHEADER") := by
  have behind : (writer.pushSlice (front ++ List.replicate 4 0 ++ inner)).sink.len -
      (writer.sink.len + (front ++ List.replicate 4 (0 : UInt8)).length) = inner.length := by
    simp only [len_pushSlice,List.length_append]
    omega
  have filled : (writer.sink.pushSlice (front ++ List.replicate 4 0 ++ inner)).patch
      (writer.sink.len + front.length) (octets writer.encoding.endianness 4 inner.length) = _ :=
    writer.sink.patch_pushSlice inner (by simp)
  unfold fillLength
  rw [behind]
  by_cases small : inner.length ≤ 4294967295
  · rw [if_pos small,if_pos small]
    unfold pushSlice
    rw [filled]
  · rw [if_neg small,if_neg small]

theorem delimited (inside : Appends code body put) :
    Appends code (CdrWriter.delimited body) (Layout.delimited code put) := by
  intro writer same behind
  subst same
  unfold CdrWriter.delimited Layout.delimited CdrWriter.align
  dsimp only
  generalize paddingTo writer.position (writer.encoding.alignFor 4) = pad
  have still : (writer.pushSlice (List.replicate pad 0 ++ List.replicate 4 0)).origin ≤
      (writer.pushSlice (List.replicate pad 0 ++ List.replicate 4 0)).sink.len := by
    rw [origin_pushSlice,len_pushSlice]
    omega
  have start : (writer.pushSlice (List.replicate pad 0 ++ List.replicate 4 0)).position =
      writer.position + pad + 4 := by
    rw [position_pushSlice behind]
    simp [Nat.add_assoc]
  rw [pushZeros_eq,pushZeros_eq,pushSlice_pushSlice,
    inside (writer.pushSlice _) rfl still,start]
  cases put (writer.position + pad + 4) with
  | error => rfl
  | ok inner =>
    change fillLength _ _ ((writer.pushSlice _).pushSlice inner) = _
    rw [pushSlice_pushSlice,len_pushSlice,len_pushSlice,
      fillLength_pushSlice]
    change _ = (if inner.length ≤ 4294967295 then Except.ok _ else Except.error _).map _
    split <;> rfl

theorem delimitedIf (scope : Bool) (inside : Appends code body put) :
    Appends code (CdrWriter.delimitedIf scope body) (Layout.delimitedIf code scope put) := by
  intro writer same behind
  unfold CdrWriter.delimitedIf Layout.delimitedIf
  rw [same]
  by_cases enclosed : (code.isV2 && scope) = true
  · rw [if_pos enclosed,if_pos enclosed]
    exact delimited inside writer same behind
  · rw [if_neg enclosed,if_neg enclosed]
    exact inside writer same behind

theorem bounded (actual bound : Nat) (context : String) (inside : Appends code write put) :
    Appends code (checked actual bound context write)
      (Layout.bounded actual bound context put) := by
  intro writer same behind
  unfold Layout.bounded
  rw [← require (fun _ => inside) writer same behind]
  unfold checked Encoding.checkBound
  dsimp only
  by_cases fits : actual ≤ bound
  · rw [if_pos fits,if_neg (by omega)]
    rfl
  · rw [if_neg fits,if_pos (by omega)]
    rfl

theorem primitive (kind : Primitive) (value : kind.Value) :
    Appends code (kind.serialize value) (Layout.primitive code kind value) := by
  cases kind with
  | bool =>
    cases value with
    | false => exact bytes [0]
    | true => exact bytes [1]
  | u8 | i8 => exact bytes _
  | u16 | i16 => exact word 2 _
  | u32 | i32 | f32 => exact word 4 _
  | u64 | i64 | f64 => exact word 8 _

end Appends

mutual

theorem CdrType.serialize_appends (code : Encoding) (type : CdrType) (value : type.Value) :
    Appends code (type.serialize value) (type.layout code value) := by
  cases type with
  | primitive kind => exact Appends.primitive kind value
  | string => exact Appends.text value
  | wstring => exact Appends.items fun unit _ => Appends.wchar unit
  | boundedString => exact Appends.bounded _ _ _ (Appends.text value)
  | boundedWString =>
    exact Appends.bounded _ _ _ (Appends.items fun unit _ => Appends.wchar unit)
  | sequence element =>
    exact Appends.delimitedIf _ (Appends.items fun item _ => element.serialize_appends code item)
  | boundedSequence element =>
    exact Appends.bounded _ _ _ (Appends.delimitedIf _
      (Appends.items fun item _ => element.serialize_appends code item))
  | array element =>
    exact Appends.delimitedIf _
      (Appends.forEach fun item _ => element.serialize_appends code item)
  | struct extensibility members =>
    exact Appends.delimitedIf _ (members.serialize_appends code value)
termination_by structural type

theorem Members.serialize_appends (code : Encoding) (members : Members)
    (value : members.Values) :
    Appends code (members.serialize value) (members.layout code value) := by
  cases members with
  | nil => exact Appends.nothing
  | cons mem others =>
    exact (mem.serialize_appends code _).andThen (others.serialize_appends code _)
termination_by structural members

end

end Astrs.Cdr
