/-
The file-backed log store.

A compaction writes the snapshot to a sidecar file and then the whole log afresh, each into
a temporary file that is renamed over the old one; the single steps on the disk are kept as
a list, so a stop at any point is a part of that list.  The encoding of record bodies is a
parameter.  Reads and writes of files succeed, and what was written stays.
-/

import Astrs.Raft.Record

namespace Astrs.Raft

open Astrs.Base

inductive FileName where
  | log
  | sidecar
  | regenerated
  | draft
  deriving DecidableEq

abbrev Disk := FileName → Option Bytes

inductive DiskStep where
  | create (file : FileName)
  | write (file : FileName) (bytes : Bytes)
  | rename (source target : FileName)

def DiskStep.run (step : DiskStep) (disk : Disk) : Disk :=
  match step with
  | .create file => Function.update disk file (some [])
  | .write file bytes => Function.update disk file (some ((disk file).getD [] ++ bytes))
  | .rename source target =>
    Function.update (Function.update disk target (disk source)) source none

def Disk.runAll (disk : Disk) (steps : List DiskStep) : Disk :=
  steps.foldl (fun disk step => step.run disk) disk

inductive FsyncPolicy where
  | always
  | everyN (writes : Nat)
  | never
  deriving DecidableEq, Repr

def FsyncPolicy.shouldSync (policy : FsyncPolicy) (writes : Nat) : Bool :=
  match policy with
  | .always => true
  | .everyN count => decide (count ≤ 1) || decide (count ≤ writes)
  | .never => false

inductive RecoveryOutcome where
  | intact
  | tornTail
  | corrupt
  deriving DecidableEq, Repr

def RecoveryOutcome.wasRepaired : RecoveryOutcome → Bool
  | .intact => false
  | _ => true

structure WalLog where
  disk : Disk
  mirror : MemoryLog
  policy : FsyncPolicy
  unsynced : Nat
  recoveredBytes : Nat
  outcome : RecoveryOutcome

/-- The encodings of the record bodies and of the sidecar.  Terms, votes and
indices take a few bytes. -/
structure WalCodec where
  entry : Codec RaftError LogEntry
  hardState : Codec RaftError HardState
  index : Codec RaftError Nat
  info : Codec RaftError SnapshotMeta
  snapshot : Codec RaftError Snapshot
  hardState_small : ∀ state body, hardState.encode state = .ok body → body.length ≤ maxRecordBody
  index_small : ∀ value body, index.encode value = .ok body → body.length ≤ maxRecordBody

def fileMagic : Bytes := [0x41,0x53,0x54,0x52,0x53,0x57,0x41,0x4C]

def formatVersion : Nat := 1

def prologueLen : Nat := fileMagic.length + 2

def prologue : Bytes := fileMagic ++ littleEndian 2 formatVersion

/-! ### Reading the files -/

variable (codec : WalCodec)

def readSnapshot (file : Option Bytes) : Except RaftError (Option Snapshot) :=
  match file with
  | none => .ok none
  | some bytes =>
    match slice bytes 0 2 with
    | none => .ok none
    | some versionBytes =>
      let version := ofLittleEndian versionBytes
      if formatVersion < version then .error (.unsupportedVersion version formatVersion)
      else
        match readRecord (bytes.drop 2) 2 with
        | .error failure => .error failure
        | .ok (.complete tag body _) =>
          if tag = tagSnapshot then (codec.snapshot.decode body).map some else .ok none
        | .ok _ => .ok none

def MemoryLog.replayEntry (mirror : MemoryLog) (entry : LogEntry) :
    Except RaftError MemoryLog := do
  if entry.index ≤ mirror.lastIndex ∧ entry.index ≠ 0 then
    let mirror ← mirror.truncateFrom entry.index
    mirror.append [entry]
  else mirror.append [entry]

/-- A truncation into the compacted part is skipped. -/
def MemoryLog.replayTruncate (mirror : MemoryLog) (index : Nat) : Except RaftError MemoryLog :=
  if index < mirror.firstIndex then .ok mirror else mirror.truncateFrom index

/-- A boundary the sidecar already installed is skipped. -/
def MemoryLog.replaySnapshot (mirror : MemoryLog) (info : SnapshotMeta) :
    Except RaftError MemoryLog :=
  match mirror.snapshotMeta with
  | some existing =>
    if info.lastIndex ≤ existing.lastIndex then .ok mirror
    else mirror.saveSnapshot { info := info, data := [] }
  | none => mirror.saveSnapshot { info := info, data := [] }

def applyRecord (tag : Nat) (body : Bytes) (mirror : MemoryLog) (offset : Nat) :
    Except RaftError MemoryLog :=
  if tag = tagEntry then do
    let entry ← codec.entry.decode body
    mirror.replayEntry entry
  else if tag = tagHardState then do
    let state ← codec.hardState.decode body
    return mirror.saveHardState state
  else if tag = tagTruncate then do
    let index ← codec.index.decode body
    mirror.replayTruncate index
  else if tag = tagSnapshot then do
    let info ← codec.info.decode body
    mirror.replaySnapshot info
  else .error (.corrupt offset "unknown record tag")

theorem readRecord_totalLen {bytes body : Bytes} {offset tag totalLen : Nat}
    (read : readRecord bytes offset = .ok (.complete tag body totalLen)) :
    0 < totalLen ∧ totalLen ≤ bytes.length := by
  unfold readRecord at read
  split at read
  · cases read
  · dsimp only at read
    split at read
    · cases read
    · split at read
      · cases read
      · split at read
        · cases read
        · rename_i found
          split at read
          · cases read
          · cases read
            unfold slice at found
            split at found
            · omega
            · cases found

def replayRecords (remaining : Bytes) (mirror : MemoryLog) (cursor : Nat) :
    Except RaftError (MemoryLog × Nat × RecoveryOutcome) :=
  if remaining.isEmpty then .ok (mirror,cursor,.intact)
  else
    match _read : readRecord remaining cursor with
    | .error failure => .error failure
    | .ok (.complete tag body totalLen) =>
      match applyRecord codec tag body mirror cursor with
      | .error failure => .error failure
      | .ok mirror => replayRecords (remaining.drop totalLen) mirror (cursor + totalLen)
    | .ok .incomplete => .ok (mirror,cursor,.tornTail)
    | .ok .corrupt => .ok (mirror,cursor,.corrupt)
termination_by remaining.length
decreasing_by
  have bounds := readRecord_totalLen _read
  rw [List.length_drop]
  omega

def replay (bytes : Bytes) (mirror : MemoryLog) :
    Except RaftError (MemoryLog × Nat × RecoveryOutcome) :=
  match slice bytes 0 prologueLen with
  | none => .ok (mirror,0,.tornTail)
  | some found =>
    if found.take fileMagic.length ≠ fileMagic then
      .error (.corrupt 0 "the file does not start with the ASTRSWAL magic")
    else
      let version := ofLittleEndian (found.drop fileMagic.length)
      if formatVersion < version then .error (.unsupportedVersion version formatVersion)
      else replayRecords codec (bytes.drop prologueLen) mirror prologueLen

namespace WalLog

def openFiles (policy : FsyncPolicy) (disk : Disk) : Except RaftError WalLog := do
  let snapshot ← readSnapshot codec (disk .sidecar)
  let mirror :=
    match snapshot with
    | some snapshot => MemoryLog.new.installSnapshot snapshot
    | none => MemoryLog.new
  match disk .log with
  | none =>
    return {
      disk := (DiskStep.write .log prologue).run disk
      mirror := mirror
      policy := policy
      unsynced := 0
      recoveredBytes := prologueLen
      outcome := .intact }
  | some bytes => do
    let (mirror,recoveredBytes,outcome) ← replay codec bytes mirror
    return {
      disk :=
        if outcome.wasRepaired then Function.update disk .log (some (bytes.take recoveredBytes))
        else disk
      mirror := mirror
      policy := policy
      unsynced := 0
      recoveredBytes := recoveredBytes
      outcome := outcome }

def sync (log : WalLog) : WalLog := { log with unsynced := 0 }

def writeRecord (log : WalLog) (tag : Nat) (body : Bytes) : Except RaftError WalLog := do
  let bytes ← appendFramed [] tag body
  let written :=
    { log with
      disk := (DiskStep.write .log bytes).run log.disk
      unsynced := min (log.unsynced + 1) u32Max }
  return if log.policy.shouldSync written.unsynced then written.sync else written

def saveHardState (log : WalLog) (state : HardState) : Except RaftError WalLog := do
  let body ← codec.hardState.encode state
  let written ← log.writeRecord tagHardState body
  return { written with mirror := written.mirror.saveHardState state }

def writeEntries (log : WalLog) (entries : List LogEntry) : Except RaftError WalLog :=
  entries.foldlM
    (fun log entry => do
      let body ← codec.entry.encode entry
      log.writeRecord tagEntry body)
    log

def append (log : WalLog) (entries : List LogEntry) : Except RaftError WalLog := do
  MemoryLog.checkContiguous log.mirror.lastIndex entries
  let written ← log.writeEntries codec entries
  let mirror ← written.mirror.append entries
  return { written with mirror := mirror }

def truncateFrom (log : WalLog) (index : Nat) : Except RaftError WalLog := do
  let mirror ← log.mirror.truncateFrom index
  let body ← codec.index.encode index
  { log with mirror := mirror }.writeRecord tagTruncate body

def sidecarSteps (snapshot : Snapshot) : Except RaftError (List DiskStep) := do
  let body ← codec.snapshot.encode snapshot
  let bytes ← appendFramed (littleEndian 2 formatVersion) tagSnapshot body
  return [.create .draft,.write .draft bytes,.rename .draft .sidecar]

/-- The start of a fresh log file: prologue and compaction boundary. -/
def regeneratedFront (mirror : MemoryLog) : Except RaftError Bytes :=
  match mirror.snapshotMeta with
  | some info => do
    let body ← codec.info.encode info
    appendFramed prologue tagSnapshot body
  | none => .ok prologue

/-- A fresh log file: its start, the hard state and the held entries. -/
def regeneratedBytes (mirror : MemoryLog) : Except RaftError Bytes := do
  let buffer ← regeneratedFront codec mirror
  let body ← codec.hardState.encode mirror.hardState
  let buffer ← appendFramed buffer tagHardState body
  mirror.entries.foldlM
    (fun buffer entry => do
      let body ← codec.entry.encode entry
      appendFramed buffer tagEntry body)
    buffer

def regenerateSteps (buffer : Bytes) : List DiskStep :=
  [.create .regenerated,.write .regenerated buffer,.rename .regenerated .log]

def writeSnapshotSidecar (log : WalLog) (snapshot : Snapshot) : Except RaftError WalLog := do
  let steps ← sidecarSteps codec snapshot
  return { log with disk := log.disk.runAll steps }

def regenerate (log : WalLog) : Except RaftError WalLog := do
  let buffer ← regeneratedBytes codec log.mirror
  return {
    log with
    disk := log.disk.runAll (regenerateSteps buffer)
    unsynced := 0
    recoveredBytes := buffer.length }

def saveSnapshot (log : WalLog) (snapshot : Snapshot) : Except RaftError WalLog := do
  let mirror ← log.mirror.saveSnapshot snapshot
  let log ← { log with mirror := mirror }.writeSnapshotSidecar codec snapshot
  log.regenerate codec

def installSnapshot (log : WalLog) (snapshot : Snapshot) : Except RaftError WalLog := do
  let mirror := log.mirror.installSnapshot snapshot
  let log ← { log with mirror := mirror }.writeSnapshotSidecar codec snapshot
  log.regenerate codec

end WalLog

/-- A call on the log, or dropping it and opening its files again. -/
inductive WalOperation where
  | append (entries : List LogEntry)
  | truncateFrom (index : Nat)
  | saveHardState (state : HardState)
  | saveSnapshot (snapshot : Snapshot)
  | installSnapshot (snapshot : Snapshot)
  | sync
  | reopen (policy : FsyncPolicy)

namespace WalLog

def perform (log : WalLog) : WalOperation → Except RaftError WalLog
  | .append entries => log.append codec entries
  | .truncateFrom index => log.truncateFrom codec index
  | .saveHardState state => log.saveHardState codec state
  | .saveSnapshot snapshot => log.saveSnapshot codec snapshot
  | .installSnapshot snapshot => log.installSnapshot codec snapshot
  | .sync => .ok log.sync
  | .reopen policy => openFiles codec policy log.disk

def performAll (log : WalLog) (operations : List WalOperation) : Except RaftError WalLog :=
  operations.foldlM (fun log operation => log.perform codec operation) log

def start (policy : FsyncPolicy) (operations : List WalOperation) : Except RaftError WalLog := do
  let log ← openFiles codec policy (fun _ => none)
  log.performAll codec operations

end WalLog

end Astrs.Raft
