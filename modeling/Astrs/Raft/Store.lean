/-
The in-memory log store.

Entries carry their own index; the store's position arithmetic counts from the snapshot
boundary.
-/

import Astrs.Raft.Types

namespace Astrs.Raft

structure MemoryLog where
  hardState : HardState
  entries : List LogEntry
  snapshot : Option Snapshot
  deriving DecidableEq

namespace MemoryLog

def new : MemoryLog := { hardState := HardState.initial, entries := [], snapshot := none }

variable (log : MemoryLog)

def snapshotMeta : Option SnapshotMeta := log.snapshot.map Snapshot.info

def firstIndex : Nat :=
  match log.snapshot with
  | some snapshot => snapshot.info.lastIndex + 1
  | none => 1

def lastIndex (log : MemoryLog) : Nat :=
  match log.entries.getLast? with
  | some entry => entry.index
  | none => (log.snapshot.map (·.info.lastIndex)).getD 0

def lastTerm (log : MemoryLog) : Nat :=
  match log.entries.getLast? with
  | some entry => entry.term
  | none => (log.snapshot.map (·.info.lastTerm)).getD 0

def position (index : Nat) : Option Nat :=
  if index < log.firstIndex then none else some (index - log.firstIndex)

def entry (index : Nat) : Option LogEntry :=
  (log.position index).bind fun position => log.entries[position]?

/-- The term at an index, answered for the snapshot boundary and for the
position before the log as well as for held entries. -/
def termAt (index : Nat) : Option Nat :=
  if index = 0 then some 0
  else
    match log.snapshot with
    | some snapshot =>
      if snapshot.info.lastIndex = index then some snapshot.info.lastTerm
      else (log.entry index).map LogEntry.term
    | none => (log.entry index).map LogEntry.term

def saveHardState (state : HardState) : MemoryLog :=
  { log with hardState := state }

def checkContiguous : Nat → List LogEntry → Except RaftError Unit
  | _,[] => .ok ()
  | last,entry :: rest =>
    if entry.index = last + 1 then checkContiguous (last + 1) rest
    else .error (.unavailable entry.index last)

def append (entries : List LogEntry) : Except RaftError MemoryLog :=
  match checkContiguous log.lastIndex entries with
  | .ok () => .ok { log with entries := log.entries ++ entries }
  | .error failure => .error failure

def truncateFrom (index : Nat) : Except RaftError MemoryLog :=
  if index < log.firstIndex then .error (.compacted index log.firstIndex)
  else .ok { log with entries := log.entries.take (index - log.firstIndex) }

def entriesFrom (start maxEntries : Nat) : Except RaftError (List LogEntry) :=
  if start < log.firstIndex then .error (.compacted start log.firstIndex)
  else .ok ((log.entries.drop (start - log.firstIndex)).take maxEntries)

def saveSnapshot (snapshot : Snapshot) : Except RaftError MemoryLog :=
  let saved : MemoryLog :=
    { log with
      entries := log.entries.filter (fun entry => decide (snapshot.info.lastIndex + 1 ≤ entry.index))
      snapshot := some snapshot }
  match log.snapshot with
  | some existing =>
    if snapshot.info.lastIndex < existing.info.lastIndex then
      .error (.invalidConfig "a newer snapshot is already held")
    else .ok saved
  | none => .ok saved

def installSnapshot (snapshot : Snapshot) : MemoryLog :=
  { log with entries := [], snapshot := some snapshot }

end MemoryLog

end Astrs.Raft
