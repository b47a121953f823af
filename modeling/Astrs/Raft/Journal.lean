/-
The log file as a list of records.

Opening a file the log itself wrote runs the records over the sidecar's snapshot, as long
as every body is within the reader's limit.
-/

import Astrs.Raft.Wal
import Astrs.Raft.Log

namespace Astrs.Raft

open Astrs.Base

inductive Record where
  | entry (entry : LogEntry)
  | hardState (state : HardState)
  | truncate (index : Nat)
  | snapshot (info : SnapshotMeta)
  deriving DecidableEq

namespace Record

def tag : Record → Nat
  | .entry _ => tagEntry
  | .hardState _ => tagHardState
  | .truncate _ => tagTruncate
  | .snapshot _ => tagSnapshot

def encode (codec : WalCodec) : Record → Except RaftError Bytes
  | .entry item => codec.entry.encode item
  | .hardState state => codec.hardState.encode state
  | .truncate index => codec.index.encode index
  | .snapshot info => codec.info.encode info

def apply (mirror : MemoryLog) : Record → Except RaftError MemoryLog
  | .entry item => mirror.replayEntry item
  | .hardState state => .ok (mirror.saveHardState state)
  | .truncate index => mirror.replayTruncate index
  | .snapshot info => mirror.replaySnapshot info

theorem tag_lt (record : Record) : record.tag < 256 ^ 4 := by
  cases record <;> exact of_decide_eq_true rfl

end Record

structure Written (codec : WalCodec) where
  record : Record
  body : Bytes
  encoded : record.encode codec = .ok body
  framable : body.length ≤ u32Max

variable {codec : WalCodec} (written : Written codec)

def Written.bytes : Bytes := framed written.record.tag written.body

def Written.Legible : Prop := written.body.length ≤ maxRecordBody

def layout (journal : List (Written codec)) : Bytes := journal.flatMap Written.bytes

def replayAll (journal : List (Written codec)) (mirror : MemoryLog) : Except RaftError MemoryLog :=
  journal.foldlM (fun mirror written => written.record.apply mirror) mirror

@[simp] theorem layout_nil : layout ([] : List (Written codec)) = [] := rfl

@[simp] theorem layout_cons (journal : List (Written codec)) :
    layout (written :: journal) = written.bytes ++ layout journal := rfl

@[simp] theorem layout_append (journal more : List (Written codec)) :
    layout (journal ++ more) = layout journal ++ layout more := by
  simp [layout]

theorem replayAll_cons (journal : List (Written codec)) (mirror : MemoryLog) :
    replayAll (written :: journal) mirror =
      (written.record.apply mirror).bind (replayAll journal) := rfl

theorem replayAll_append (journal more : List (Written codec)) (mirror : MemoryLog) :
    replayAll (journal ++ more) mirror = (replayAll journal mirror).bind (replayAll more) :=
  List.foldlM_append

theorem replayAll_single {journal : List (Written codec)} {record : Record}
    (records : journal.map Written.record = [record]) (mirror : MemoryLog) :
    replayAll journal mirror = record.apply mirror := by
  obtain ⟨only,rfl,rfl⟩ := List.map_eq_singleton_iff.mp records
  exact List.foldlM_cons.trans (bind_pure _)

theorem applyRecord_eq (mirror : MemoryLog) (offset : Nat) :
    applyRecord codec written.record.tag written.body mirror offset =
      written.record.apply mirror := by
  obtain ⟨record,body,encoded,_⟩ := written
  cases record with
  | entry item =>
    change applyRecord codec tagEntry body mirror offset = _
    unfold applyRecord
    rw [if_pos rfl,codec.entry.decode_encode item body encoded]
    rfl
  | hardState state =>
    change applyRecord codec tagHardState body mirror offset = _
    unfold applyRecord
    rw [if_neg (by decide : tagHardState ≠ tagEntry),if_pos rfl,
      codec.hardState.decode_encode state body encoded]
    rfl
  | truncate index =>
    change applyRecord codec tagTruncate body mirror offset = _
    unfold applyRecord
    rw [if_neg (by decide : tagTruncate ≠ tagEntry),
      if_neg (by decide : tagTruncate ≠ tagHardState),if_pos rfl,
      codec.index.decode_encode index body encoded]
    rfl
  | snapshot info =>
    change applyRecord codec tagSnapshot body mirror offset = _
    unfold applyRecord
    rw [if_neg (by decide : tagSnapshot ≠ tagEntry),if_neg (by decide : tagSnapshot ≠ tagHardState),
      if_neg (by decide : tagSnapshot ≠ tagTruncate),if_pos rfl,
      codec.info.decode_encode info body encoded]
    rfl

@[simp] theorem replayRecords_nil (mirror : MemoryLog) (cursor : Nat) :
    replayRecords codec [] mirror cursor = .ok (mirror,cursor,.intact) := by
  rw [replayRecords]
  rfl

section Unrolling

variable {left : Bytes} {mirror : MemoryLog} {cursor : Nat}

theorem replayRecords_step (more : left ≠ []) : replayRecords codec left mirror cursor =
      match readRecord left cursor with
      | .error failure => .error failure
      | .ok (.complete tag body totalLen) =>
        (applyRecord codec tag body mirror cursor).bind fun mirror =>
          replayRecords codec (left.drop totalLen) mirror (cursor + totalLen)
      | .ok .incomplete => .ok (mirror,cursor,.tornTail)
      | .ok .corrupt => .ok (mirror,cursor,.corrupt) := by
  rw [replayRecords]
  rw [if_neg (by simpa using more)]
  split <;> rename_i read <;> rw [read]
  rename_i tag body totalLen
  dsimp only
  cases applyRecord codec tag body mirror cursor <;> rfl

end Unrolling

theorem Written.bytes_ne_nil : written.bytes ≠ [] := by
  intro empty
  have size := length_framed written.record.tag written.body
  rw [← Written.bytes,empty] at size
  simp [recordOverhead] at size

variable {journal : List (Written codec)}

theorem replayRecords_layout (legible : ∀ written ∈ journal, written.Legible) (tail : Bytes)
    (mirror : MemoryLog) (cursor : Nat) :
    replayRecords codec (layout journal ++ tail) mirror cursor =
      (replayAll journal mirror).bind fun mirror =>
        replayRecords codec tail mirror (cursor + (layout journal).length) := by
  induction journal generalizing mirror cursor with
  | nil => rfl
  | cons written rest ih =>
    have fits := legible written List.mem_cons_self
    have others := ih fun other member => legible other (List.mem_cons_of_mem _ member)
    have read := readRecord_framed written.record.tag_lt fits (layout rest ++ tail) cursor
    rw [layout_cons,List.append_assoc,replayRecords_step (by simp [written.bytes_ne_nil]),
      replayAll_cons]
    unfold Written.bytes
    rw [read]
    dsimp only
    rw [applyRecord_eq,List.drop_left]
    cases written.record.apply mirror with
    | error => rfl
    | ok next =>
      have placed := others next (cursor + (framed written.record.tag written.body).length)
      rw [Nat.add_assoc,← List.length_append] at placed
      exact placed

variable {written : Written codec}

theorem replayRecords_torn (legible : ∀ written ∈ journal, written.Legible)
    (fits : written.Legible) {count : Nat} (some : 0 < count)
    (cut : count < written.bytes.length) (mirror : MemoryLog) (cursor : Nat) :
    replayRecords codec (layout journal ++ written.bytes.take count) mirror cursor =
      (replayAll journal mirror).map fun mirror =>
        (mirror,cursor + (layout journal).length,.tornTail) := by
  rw [replayRecords_layout legible]
  have present : written.bytes.take count ≠ [] := by
    intro empty
    have size := congrArg List.length empty
    rw [List.length_take,List.length_nil] at size
    omega
  cases replayAll journal mirror with
  | error => rfl
  | ok next =>
    change replayRecords codec (written.bytes.take count) next _ = _
    rw [replayRecords_step present]
    unfold Written.bytes
    rw [readRecord_torn written.record.tag_lt fits cut]
    rfl

/-- A record beyond the reader's limit stops the replay with an error. -/
theorem replayRecords_oversized {more : List (Written codec)}
    (legible : ∀ written ∈ journal, written.Legible) (oversized : ¬ written.Legible)
    (mirror : MemoryLog) (cursor : Nat) :
    ∃ failure,
      replayRecords codec (layout (journal ++ written :: more)) mirror cursor = .error failure := by
  rw [layout_append,replayRecords_layout legible]
  cases replayAll journal mirror with
  | error failure => exact ⟨failure,rfl⟩
  | ok next =>
    have beyond : maxRecordBody < written.body.length := by
      unfold Written.Legible at oversized
      omega
    refine ⟨.corrupt (cursor + (layout journal).length)
      "a record declares a body larger than this build will read",?_⟩
    change replayRecords codec (layout (written :: more)) next _ = _
    rw [layout_cons,replayRecords_step (by simp [written.bytes_ne_nil])]
    unfold Written.bytes
    rw [readRecord_oversized written.record.tag_lt written.framable beyond]

end Astrs.Raft
