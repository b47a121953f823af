/-
The records of the write-ahead log.

The reader refuses a declared length above its own limit, reports a record that ends past
the bytes on hand as incomplete and one whose checksum differs as corrupt.
-/

import Astrs.Raft.Store
import Astrs.Base.Bytes

namespace Astrs.Raft

open Astrs.Base

def crcRound (crc : UInt32) : UInt32 :=
  if crc &&& 1 ≠ 0 then (crc >>> 1) ^^^ 0x82F63B78 else crc >>> 1

/-- One entry of the byte table: eight rounds of the reflected polynomial. -/
def crcTable (index : UInt32) : UInt32 := Nat.repeat crcRound 8 index

def updateState (state : UInt32) (data : Bytes) : UInt32 :=
  data.foldl (fun state byte => (state >>> 8) ^^^ crcTable ((state ^^^ byte.toUInt32) &&& 0xFF)) state

structure Crc32c where
  state : UInt32

namespace Crc32c

def new : Crc32c := { state := 0xFFFFFFFF }

def update (hasher : Crc32c) (data : Bytes) : Crc32c := { state := updateState hasher.state data }

def finalize (hasher : Crc32c) : UInt32 := ~~~hasher.state

end Crc32c

-- The published check value: the digits one to nine.
example : (Crc32c.new.update [49,50,51,52,53,54,55,56,57]).finalize = 0xE3069283 := by
  decide +kernel

/-- The largest record body the reader accepts: 64 MiB. -/
def maxRecordBody : Nat := 67108864

def u32Max : Nat := 4294967295

def recordOverhead : Nat := 12

def tagEntry : Nat := ofLittleEndian [0x41,0x57,0x65,0x31]

def tagHardState : Nat := ofLittleEndian [0x41,0x57,0x68,0x31]

def tagTruncate : Nat := ofLittleEndian [0x41,0x57,0x74,0x31]

def tagSnapshot : Nat := ofLittleEndian [0x41,0x57,0x73,0x31]

/-- The checksum of a record's tag, declared length and body, as they lie on disk. -/
def recordCrc (tag : Nat) (body : Bytes) : Nat :=
  let hasher := Crc32c.new
  let hasher := hasher.update (littleEndian 4 tag)
  let hasher := hasher.update (littleEndian 4 body.length)
  let hasher := hasher.update body
  hasher.finalize.toNat

def framed (tag : Nat) (body : Bytes) : Bytes :=
  littleEndian 4 tag ++ littleEndian 4 body.length ++ body ++ littleEndian 4 (recordCrc tag body)

def appendFramed (out : Bytes) (tag : Nat) (body : Bytes) : Except RaftError Bytes :=
  if body.length ≤ u32Max then .ok (out ++ framed tag body)
  else .error (.corrupt 0 "a record body larger than 4 GiB cannot be framed")

inductive RecordRead where
  | complete (tag : Nat) (body : Bytes) (totalLen : Nat)
  | incomplete
  | corrupt
  deriving DecidableEq

def readRecord (bytes : Bytes) (offset : Nat) : Except RaftError RecordRead :=
  match slice bytes 0 8 with
  | none => .ok .incomplete
  | some header =>
    let tag := ofLittleEndian (header.take 4)
    let declared := ofLittleEndian (header.drop 4)
    if maxRecordBody < declared then
      .error (.corrupt offset "a record declares a body larger than this build will read")
    else
      match slice bytes 8 (8 + declared) with
      | none => .ok .incomplete
      | some body =>
        match slice bytes (8 + declared) (8 + declared + 4) with
        | none => .ok .incomplete
        | some crcBytes =>
          if ofLittleEndian crcBytes ≠ recordCrc tag body then .ok .corrupt
          else .ok (.complete tag body (8 + declared + 4))

@[simp] theorem length_framed (tag : Nat) (body : Bytes) :
    (framed tag body).length = body.length + recordOverhead := by
  simp only [framed,recordOverhead,List.length_append,length_littleEndian]
  omega

theorem recordCrc_lt (tag : Nat) (body : Bytes) : recordCrc tag body < 256 ^ 4 := by
  exact UInt32.toNat_lt _

section Reading

variable {tag : Nat} {body : Bytes}

/-- A record starts with eight octets that hold its tag and the length of its body. -/
theorem framed_header (small : tag < 256 ^ 4) (fits : body.length ≤ u32Max) :
    ∃ header : Bytes, 8 = header.length ∧ ofLittleEndian (header.take 4) = tag ∧
      ofLittleEndian (header.drop 4) = body.length ∧ ∀ rest, framed tag body ++ rest =
        header ++ (body ++ (littleEndian 4 (recordCrc tag body) ++ rest)) := by
  have within : body.length < 256 ^ 4 := by
    have : u32Max < 256 ^ 4 := by decide
    omega
  refine ⟨littleEndian 4 tag ++ littleEndian 4 body.length,by simp,
    ofLittleEndian_littleEndian small,ofLittleEndian_littleEndian within,?_⟩
  intro rest
  simp only [framed,List.append_assoc]

theorem readRecord_framed (small : tag < 256 ^ 4) (within : body.length ≤ maxRecordBody)
    (rest : Bytes) (offset : Nat) :
    readRecord (framed tag body ++ rest) offset =
      .ok (.complete tag body (framed tag body).length) := by
  have limit : maxRecordBody ≤ u32Max := by decide
  obtain ⟨header,size,tagged,counted,split⟩ := framed_header small (within.trans limit)
  have upTo : 8 + body.length = (header ++ body).length := by
    rw [List.length_append,← size]
  have bodyAt := slice_middle header body
    (littleEndian 4 (recordCrc tag body) ++ rest) size (upTo.trans List.length_append)
  have crcEnd : 8 + body.length + 4 =
      (header ++ body).length + (littleEndian 4 (recordCrc tag body)).length := by
    rw [← upTo,length_littleEndian]
  have crcAt := slice_middle (header ++ body)
    (littleEndian 4 (recordCrc tag body)) rest upTo crcEnd
  rw [List.append_assoc header] at crcAt
  rw [length_framed,split]
  unfold readRecord
  rw [slice_front _ _ size]
  dsimp only
  rw [tagged,counted,if_neg (by omega),bodyAt]
  rw [crcAt]
  dsimp only
  rw [ofLittleEndian_littleEndian (recordCrc_lt tag body),if_neg (by simp)]
  have total : 8 + body.length + 4 = body.length + recordOverhead := by
    unfold recordOverhead
    omega
  rw [total]

/-- A proper initial part of a record the reader accepts is incomplete. -/
theorem readRecord_torn (small : tag < 256 ^ 4) (within : body.length ≤ maxRecordBody)
    {count : Nat} (cut : count < (framed tag body).length) (offset : Nat) :
    readRecord ((framed tag body).take count) offset = .ok .incomplete := by
  have limit : maxRecordBody ≤ u32Max := by decide
  obtain ⟨header,size8,tagged,counted,starts⟩ := framed_header small (within.trans limit)
  have size : ((framed tag body).take count).length = count := by
    rw [List.length_take]
    omega
  have whole : (framed tag body).length = body.length + 12 := length_framed tag body
  unfold readRecord
  by_cases early : count < 8
  · rw [slice_of_short (by omega)]
  · have bracketed := starts []
    rw [List.append_nil,List.append_nil] at bracketed
    have headerAt := slice_front header
      ((body ++ littleEndian 4 (recordCrc tag body)).take (count - 8)) size8
    have split : (framed tag body).take count =
        header ++ ((body ++ littleEndian 4 (recordCrc tag body)).take (count - 8)) := by
      rw [bracketed,List.take_append,List.take_of_length_le (by omega),← size8]
    rw [← split] at headerAt
    rw [headerAt]
    dsimp only
    rw [tagged,counted,if_neg (by omega)]
    by_cases short : count < 8 + body.length
    · rw [slice_of_short (by omega)]
    · cases slice ((framed tag body).take count) 8 (8 + body.length) with
      | none => rfl
      | some =>
        rw [slice_of_short (by omega)]

/-- A record too long for the reader is refused as soon as its header is there. -/
theorem readRecord_oversized (small : tag < 256 ^ 4) (fits : body.length ≤ u32Max)
    (oversized : maxRecordBody < body.length) (rest : Bytes) (offset : Nat) :
    readRecord (framed tag body ++ rest) offset =
      .error (.corrupt offset "a record declares a body larger than this build will read") := by
  obtain ⟨_,size,-,counted,split⟩ := framed_header small fits
  rw [split]
  unfold readRecord
  rw [slice_front _ _ size]
  dsimp only
  rw [counted,if_pos oversized]

end Reading

end Astrs.Raft
