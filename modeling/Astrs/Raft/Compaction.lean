/-
Interrupted compactions.

A process that stops between the two renames leaves the old log beside the new sidecar.
What that opens to is decided by the two boundaries and by whether the old log holds any
entry record.
-/

import Astrs.Raft.Durability

namespace Astrs.Raft

open Astrs.Base List MemoryLog
open MemoryLog (over_entries)

variable {codec : WalCodec}

def MemoryLog.rebased (mirror : MemoryLog) (snapshot : Option Snapshot) : MemoryLog :=
  { mirror with snapshot := snapshot }

variable {mirror next final : MemoryLog} {snapshot : Option Snapshot} {record : Record}
  {journal : List (Written codec)}

theorem MemoryLog.lastIndex_rebased (same : (mirror.rebased snapshot).boundary = mirror.boundary) :
    (mirror.rebased snapshot).lastIndex = mirror.lastIndex := by
  have entries : (mirror.rebased snapshot).entries = mirror.entries := rfl
  unfold lastIndex
  rw [entries]
  cases mirror.entries.getLast? with
  | some => rfl
  | none => exact same

/-- A store operation looks at the snapshot only for its boundary. -/
theorem Record.enact_rebased (plain : record.isSnapshot = false)
    (same : (mirror.rebased snapshot).boundary = mirror.boundary)
    (enacted : record.enact mirror = .ok next) :
    record.enact (mirror.rebased snapshot) = .ok (next.rebased snapshot) := by
  cases record with
  | entry item =>
    obtain ⟨numbered,result⟩ := append_inv enacted
    rw [← lastIndex_rebased same] at numbered
    change (mirror.rebased snapshot).append [item] = _
    rw [append_ok numbered,result]
    rfl
  | hardState =>
    cases enacted
    rfl
  | truncate index =>
    obtain ⟨_,result⟩ := truncateFrom_inv enacted
    change (mirror.rebased snapshot).truncateFrom index = _
    unfold truncateFrom
    rw [firstIndex_eq,same,if_neg (by omega),result]
    rfl
  | snapshot => cases plain

theorem Enacts.rebased {records : List Record} (enacts : Enacts mirror records final)
    (dense : mirror.Contiguous) (same : (mirror.rebased snapshot).boundary = mirror.boundary) :
    Enacts (mirror.rebased snapshot) records (final.rebased snapshot) := by
  induction enacts with
  | nil => exact .nil _
  | @cons mirror next _ _ _ plain enacted _ ih =>
    obtain ⟨numbered,kept,-⟩ := Record.enact_keeps plain dense enacted
    refine .cons plain (Record.enact_rebased plain same enacted) (ih numbered ?_)
    have boundary : next.boundary = mirror.boundary := by
      unfold boundary
      rw [kept]
    rw [boundary]
    exact same

section Halfway

variable {log : WalLog} {snapshot : Snapshot}

variable {leading : List (Written codec)}

section

variable {header : Bytes} (logged : Journaled log header journal)
include logged

end

end Halfway

/-! ### When a compaction is atomic -/

section Atomic

variable {before after : WalLog} {call : SnapshotCall} {snapshot : Snapshot}

variable {header : Bytes} {entryless : Bool} {log : WalLog} {image : Disk}

end Atomic

end Astrs.Raft
