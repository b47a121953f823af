/-
Recovery of the write-ahead log.

The invariant of a log is that its file is the prologue and a journal whose replay over
the sidecar's snapshot gives the in-memory mirror.
-/

import Astrs.Base.Effect
import Astrs.Raft.Journal

namespace Astrs.Raft

open Astrs.Base List MemoryLog Numbered

variable {codec : WalCodec}

/-! ### What opening makes of the files -/

/-- An encoded body the reader accepts; a value with no encoding is never written. -/
def bodyFits : Except RaftError Bytes → Bool
  | .ok body => decide (body.length ≤ maxRecordBody)
  | .error _ => true

def sidecarFits (codec : WalCodec) : Option Snapshot → Bool
  | some snapshot => bodyFits (codec.snapshot.encode snapshot)
  | none => true

/-- The mirror that opening starts the replay from. -/
def MemoryLog.over : Option Snapshot → MemoryLog
  | some snapshot => new.installSnapshot snapshot
  | none => new

@[simp] theorem MemoryLog.over_snapshot (snapshot : Option Snapshot) :
    (MemoryLog.over snapshot).snapshot = snapshot := by
  cases snapshot <;> rfl

@[simp] theorem MemoryLog.over_entries (snapshot : Option Snapshot) :
    (MemoryLog.over snapshot).entries = [] := by
  cases snapshot <;> rfl

inductive SidecarHolds (codec : WalCodec) : Option Bytes → Option Snapshot → Prop where
  | absent : SidecarHolds codec none none
  | present (snapshot : Snapshot) (body : Bytes)
      (encoded : codec.snapshot.encode snapshot = .ok body) (framable : body.length ≤ u32Max) :
      SidecarHolds codec (some (littleEndian 2 formatVersion ++ framed tagSnapshot body))
        (some snapshot)

theorem readSnapshot_present (body : Bytes) :
    readSnapshot codec (some (littleEndian 2 formatVersion ++ framed tagSnapshot body)) =
      match readRecord (framed tagSnapshot body) 2 with
      | .error fault => .error fault
      | .ok (.complete tag body _) =>
        if tag = tagSnapshot then (codec.snapshot.decode body).map some else .ok none
      | .ok _ => .ok none := by
  unfold readSnapshot
  dsimp only
  rw [slice_front _ _ (by rfl)]
  dsimp only
  rw [if_neg (by decide)]
  have past : List.drop 2 (littleEndian 2 formatVersion ++ framed tagSnapshot body) =
      framed tagSnapshot body := drop_left' (by rfl)
  cases found : readRecord (framed tagSnapshot body) 2 with
  | error => simp only [past,found]
  | ok read => cases read <;> simp only [past,found]

section

variable {file : Option Bytes} {snapshot : Option Snapshot}
  (holds : SidecarHolds codec file snapshot)
include holds

theorem readSnapshot_holds (fits : sidecarFits codec snapshot = true) :
    readSnapshot codec file = .ok snapshot := by
  cases holds with
  | absent => rfl
  | present snapshot body encoded =>
    have within : body.length ≤ maxRecordBody := by
      simpa [sidecarFits,encoded,bodyFits] using fits
    have read := readRecord_framed (by decide : tagSnapshot < 256 ^ 4) within [] 2
    rw [append_nil] at read
    rw [readSnapshot_present,read]
    dsimp only
    rw [if_pos rfl,codec.snapshot.decode_encode snapshot body encoded]
    rfl

theorem readSnapshot_oversized (oversized : sidecarFits codec snapshot = false) :
    ∃ fault, readSnapshot codec file = .error fault := by
  cases holds with
  | absent => cases oversized
  | present snapshot body encoded framable =>
    have beyond : maxRecordBody < body.length := by
      simpa [sidecarFits,encoded,bodyFits] using oversized
    have read := readRecord_oversized (by decide : tagSnapshot < 256 ^ 4) framable beyond [] 2
    rw [append_nil] at read
    rw [readSnapshot_present,read]
    exact ⟨_,rfl⟩

end

theorem length_prologue : prologue.length = prologueLen := by rfl

theorem replay_prologue (rest : Bytes) (mirror : MemoryLog) :
    replay codec (prologue ++ rest) mirror = replayRecords codec rest mirror prologueLen := by
  unfold replay
  rw [slice_front _ _ length_prologue.symm]
  dsimp only
  rw [if_neg (by decide),if_neg (by decide),drop_left' length_prologue]

variable {bytes body header buffer : Bytes} {mirror final : MemoryLog} {next log : WalLog}
  {entries : List LogEntry} {record : Record} {journal : List (Written codec)} {tag : Nat}
  {snapshot : Snapshot} {call : SnapshotCall} {entry : LogEntry}

/-- A file too short for the prologue counts as torn at its start. -/
theorem replay_short (short : bytes.length < prologueLen) (mirror : MemoryLog) :
    replay codec bytes mirror = .ok (mirror,0,.tornTail) := by
  unfold replay
  rw [slice_of_short short]

section Opening

variable {disk : Disk} {snapshot : Option Snapshot}

variable (policy : FsyncPolicy) (holds : SidecarHolds codec (disk .sidecar) snapshot)
include holds

theorem openFiles_file (fits : sidecarFits codec snapshot = true) (file : disk .log = some bytes) :
    WalLog.openFiles codec policy disk =
      (replay codec bytes (.over snapshot)).map fun result =>
        { disk :=
            if result.2.2.wasRepaired then
              Function.update disk .log (some (bytes.take result.2.1))
            else disk
          mirror := result.1
          policy := policy
          unsynced := 0
          recoveredBytes := result.2.1
          outcome := result.2.2 } := by
  unfold WalLog.openFiles
  rw [readSnapshot_holds holds fits,file]
  cases snapshot with
  | none =>
    cases replay codec bytes new <;> rfl
  | some held =>
    cases replay codec bytes (new.installSnapshot held) <;> rfl

/-- A journal within the reader's limit is replayed as it stands. -/
theorem openFiles_layout (fits : sidecarFits codec snapshot = true)
    (file : disk .log = some (prologue ++ layout journal))
    (legible : ∀ written ∈ journal, written.Legible) :
    WalLog.openFiles codec policy disk =
      (replayAll journal (.over snapshot)).map fun mirror =>
        { disk := disk
          mirror := mirror
          policy := policy
          unsynced := 0
          recoveredBytes := prologueLen + (layout journal).length
          outcome := .intact } := by
  have replayed := replayRecords_layout legible [] (.over snapshot) prologueLen
  rw [append_nil] at replayed
  rw [openFiles_file policy holds fits file,replay_prologue,replayed]
  cases replayAll journal (.over snapshot) with
  | error => rfl
  | ok mirror =>
    change Except.map _ (replayRecords codec [] mirror _) = _
    rw [replayRecords_nil]
    rfl

theorem openFiles_sidecar (oversized : sidecarFits codec snapshot = false) :
    ∃ fault, WalLog.openFiles codec policy disk = .error fault := by
  obtain ⟨fault,refused⟩ := readSnapshot_oversized holds oversized
  unfold WalLog.openFiles
  rw [refused]
  exact ⟨fault,rfl⟩

theorem openFiles_oversized (fits : sidecarFits codec snapshot = true)
    (file : disk .log = some (prologue ++ layout journal))
    (oversized : ¬ ∀ written ∈ journal, written.Legible) :
    ∃ fault, WalLog.openFiles codec policy disk = .error fault := by
  obtain ⟨_,_,_,split,legible,beyond⟩ := exists_first oversized
  subst split
  obtain ⟨fault,failed⟩ := replayRecords_oversized legible beyond (.over snapshot) prologueLen
  rw [openFiles_file policy holds fits file,replay_prologue,failed]
  exact ⟨fault,rfl⟩

end Opening

theorem MemoryLog.append_inv {next : MemoryLog} (done : mirror.append entries = .ok next) :
    Numbered mirror.lastIndex entries ∧
      next = { mirror with entries := mirror.entries ++ entries } := by
  unfold append at done
  cases checked : checkContiguous mirror.lastIndex entries with
  | error =>
    rw [checked] at done
    cases done
  | ok =>
    rw [checked] at done
    cases done
    exact ⟨numbered_of_checkContiguous checked,rfl⟩

theorem MemoryLog.truncateFrom_inv {next : MemoryLog} {index : Nat}
    (done : mirror.truncateFrom index = .ok next) :
    mirror.boundary < index ∧
      next = { mirror with entries := mirror.entries.take (index - (mirror.boundary + 1)) } := by
  unfold truncateFrom at done
  rw [firstIndex_eq] at done
  split at done
  · cases done
  · cases done
    exact ⟨by omega,rfl⟩

def Record.isSnapshot : Record → Bool
  | .snapshot _ => true
  | _ => false

/-- The store operation a record stands for. -/
def Record.enact (mirror : MemoryLog) : Record → Except RaftError MemoryLog
  | .entry item => mirror.append [item]
  | .hardState state => .ok (mirror.saveHardState state)
  | .truncate index => mirror.truncateFrom index
  | .snapshot info => mirror.saveSnapshot { info := info, data := [] }

def enactAll (records : List Record) (mirror : MemoryLog) : Except RaftError MemoryLog :=
  records.foldlM Record.enact mirror

theorem enactAll_cons (record : Record) (records : List Record) (mirror : MemoryLog) :
    enactAll (record :: records) mirror = (record.enact mirror).bind (enactAll records) := rfl

/-- The store enacts the records, none of them a snapshot's, and reaches the last mirror. -/
inductive Enacts : MemoryLog → List Record → MemoryLog → Prop where
  | nil (mirror : MemoryLog) : Enacts mirror [] mirror
  | cons {mirror next final : MemoryLog} {record : Record} {records : List Record}
      (plain : record.isSnapshot = false) (enacted : record.enact mirror = .ok next)
      (rest : Enacts next records final) : Enacts mirror (record :: records) final

theorem Enacts.enactAll {records : List Record} (enacts : Enacts mirror records final) :
    enactAll records mirror = .ok final := by
  induction enacts with
  | nil => rfl
  | cons _ enacted _ ih =>
    rw [enactAll_cons,enacted]
    exact ih

theorem enacts_append {records more : List Record} :
    Enacts mirror (records ++ more) final ↔
      ∃ middle, Enacts mirror records middle ∧ Enacts middle more final := by
  induction records generalizing mirror with
  | nil =>
    constructor
    · exact fun enacts => ⟨mirror,.nil mirror,enacts⟩
    · rintro ⟨_,⟨⟩,enacts⟩
      exact enacts
  | cons record records ih =>
    constructor
    · rintro (_ | ⟨plain,enacted,rest⟩)
      obtain ⟨middle,front,back⟩ := ih.mp rest
      exact ⟨middle,.cons plain enacted front,back⟩
    · rintro ⟨middle,_ | ⟨plain,enacted,front⟩,back⟩
      exact .cons plain enacted (ih.mpr ⟨middle,front,back⟩)

/-- Where the store operation succeeds, the replay does the same. -/
theorem Record.apply_of_enact {next : MemoryLog}
    (plain : record.isSnapshot = false) (enacted : record.enact mirror = .ok next) :
    record.apply mirror = .ok next := by
  cases record with
  | entry item =>
    have placed := (cons_iff.mp (append_inv enacted).1).1
    change mirror.replayEntry item = _
    unfold replayEntry
    rw [if_neg (by omega)]
    exact enacted
  | hardState => exact enacted
  | truncate index =>
    have past := (truncateFrom_inv enacted).1
    change mirror.replayTruncate index = _
    unfold replayTruncate
    rw [firstIndex_eq,if_neg (by omega)]
    exact enacted
  | snapshot => cases plain

theorem Enacts.replayAll (enacts : Enacts mirror (journal.map Written.record) final) :
    replayAll journal mirror = .ok final := by
  induction journal generalizing mirror with
  | nil =>
    cases enacts
    rfl
  | cons written rest ih =>
    cases enacts with
    | cons plain enacted later =>
      rw [replayAll_cons,Record.apply_of_enact plain enacted]
      exact ih later

theorem enacts_entries (numbered : Numbered mirror.lastIndex entries) :
    Enacts mirror (entries.map Record.entry)
      { mirror with entries := mirror.entries ++ entries } := by
  induction entries generalizing mirror with
  | nil =>
    rw [append_nil]
    exact .nil mirror
  | cons entry rest ih =>
    obtain ⟨next,tail⟩ := cons_iff.mp numbered
    refine .cons rfl (append_ok (cons_iff.mpr ⟨next,nil _⟩)) ?_
    have moved : ({ mirror with entries := mirror.entries ++ [entry] } : MemoryLog).lastIndex =
        mirror.lastIndex + 1 := by
      unfold lastIndex at next ⊢
      simp [next]
    rw [← moved] at tail
    have enacts := ih tail
    rw [append_assoc] at enacts
    exact enacts

theorem writeRecord_ok (done : log.writeRecord tag body = .ok next) :
    body.length ≤ u32Max ∧ next.mirror = log.mirror ∧
      next.disk = (DiskStep.write .log (framed tag body)).run log.disk := by
  obtain ⟨_,framedOk,rest⟩ := bind_ok done
  unfold appendFramed at framedOk
  split at framedOk
  · rename_i fits
    cases framedOk
    cases rest
    refine ⟨fits,?_,?_⟩
    · dsimp only
      split <;> rfl
    · dsimp only
      split <;> rfl
  · cases framedOk

theorem write_run {disk : Disk} (file : disk .log = some bytes) (more : Bytes) :
    (DiskStep.write .log more).run disk = Function.update disk .log (some (bytes ++ more)) := by
  change Function.update disk .log (some ((disk .log).getD [] ++ more)) = _
  rw [file]
  rfl

theorem writeEntries_ok
    (file : log.disk .log = some bytes) (done : log.writeEntries codec entries = .ok next) :
    ∃ more : List (Written codec), more.map Written.record = entries.map Record.entry ∧
      next.mirror = log.mirror ∧
      next.disk = Function.update log.disk .log (some (bytes ++ layout more)) := by
  induction entries generalizing log bytes with
  | nil =>
    cases done
    refine ⟨[],rfl,rfl,?_⟩
    rw [layout_nil,append_nil,← file,Function.update_eq_self]
  | cons entry rest ih =>
    obtain ⟨after,first,others⟩ := bind_ok done
    obtain ⟨body,encoded,wrote⟩ := bind_ok first
    obtain ⟨fits,mirrored,disk⟩ := writeRecord_ok wrote
    rw [write_run file] at disk
    have fileAfter : after.disk .log = some (bytes ++ framed tagEntry body) := by
      rw [disk,Function.update_self]
    obtain ⟨more,records,mirroredLater,diskLater⟩ := ih fileAfter others
    refine ⟨⟨.entry entry,body,encoded,fits⟩ :: more,?_,mirroredLater.trans mirrored,?_⟩
    · rw [map_cons,map_cons,records]
    · rw [diskLater,disk,Function.update_idem,layout_cons,append_assoc]
      rfl

/-- The record a compaction puts in front. -/
def boundaryRecords : Option Snapshot → List Record
  | some snapshot => [.snapshot snapshot.info]
  | none => []

/-- The log file is `header` and a journal: the compaction boundary, and then the
operations that lead from there to the mirror. -/
structure Journaled (log : WalLog) (header : Bytes) (journal : List (Written codec)) : Prop where
  file : log.disk .log = some (header ++ layout journal)
  sidecar : SidecarHolds codec (log.disk .sidecar) log.mirror.snapshot
  contiguous : log.mirror.Contiguous
  enacted : ∃ rest, journal.map Written.record = boundaryRecords log.mirror.snapshot ++ rest ∧
    Enacts (.over log.mirror.snapshot) rest log.mirror

/-- The invariant is about the files and the mirror alone. -/
theorem Journaled.congr (logged : Journaled log header journal) (disk : next.disk = log.disk)
    (mirror : next.mirror = log.mirror) : Journaled next header journal := by
  obtain ⟨file,sidecar,dense,enacted⟩ := logged
  rw [← disk] at file sidecar
  rw [← mirror] at sidecar dense enacted
  exact ⟨file,sidecar,dense,enacted⟩

theorem MemoryLog.over_contiguous (held : Option Snapshot) : (MemoryLog.over held).Contiguous := by
  unfold MemoryLog.Contiguous
  rw [over_entries]
  exact nil _

/-- An enacted record leaves the snapshot, and the only new entry is its own. -/
theorem Record.enact_keeps {next : MemoryLog}
    (plain : record.isSnapshot = false) (dense : mirror.Contiguous)
    (enacted : record.enact mirror = .ok next) :
    next.Contiguous ∧ next.snapshot = mirror.snapshot ∧
      ∀ entry ∈ next.entries, entry ∈ mirror.entries ∨ record = .entry entry := by
  cases record with
  | entry item =>
    obtain ⟨numbered,same⟩ := append_inv enacted
    rw [dense.lastIndex_eq] at numbered
    subst same
    refine ⟨append_iff.mpr ⟨dense,numbered⟩,rfl,?_⟩
    intro entry mem
    exact (mem_append.mp mem).imp_right fun own => by rw [mem_singleton.mp own]
  | hardState =>
    cases enacted
    exact ⟨dense,rfl,fun _ mem => .inl mem⟩
  | truncate =>
    have same := (truncateFrom_inv enacted).2
    subst same
    exact ⟨take dense _,rfl,fun _ mem => .inl (mem_of_mem_take mem)⟩
  | snapshot => cases plain

theorem Enacts.keeps {records : List Record} (enacts : Enacts mirror records final)
    (dense : mirror.Contiguous) : final.Contiguous ∧ final.snapshot = mirror.snapshot ∧
      ∀ entry ∈ final.entries, entry ∈ mirror.entries ∨ Record.entry entry ∈ records := by
  induction enacts with
  | nil => exact ⟨dense,rfl,fun _ mem => .inl mem⟩
  | cons plain enacted _ ih =>
    obtain ⟨numbered,kept,own⟩ := Record.enact_keeps plain dense enacted
    obtain ⟨last,same,later⟩ := ih numbered
    refine ⟨last,same.trans kept,?_⟩
    intro entry mem
    rcases later entry mem with held | new
    · exact (own entry held).imp_right fun first => mem_cons.mpr (.inl first.symm)
    · exact .inr (mem_cons_of_mem _ new)

theorem Journaled.extend {more : List (Written codec)}
    (logged : Journaled log header journal) (disk : next.disk =
      Function.update log.disk .log (some (header ++ layout journal ++ layout more)))
    (enacts : Enacts log.mirror (more.map Written.record) next.mirror) :
    Journaled next header (journal ++ more) ∧ next.mirror.snapshot = log.mirror.snapshot := by
  obtain ⟨dense,kept,-⟩ := enacts.keeps logged.contiguous
  refine ⟨⟨?_,?_,dense,?_⟩,kept⟩
  · rw [disk,Function.update_self,layout_append,append_assoc]
  · rw [disk,Function.update_of_ne (by decide),kept]
    exact logged.sidecar
  · obtain ⟨rest,split,reached⟩ := logged.enacted
    rw [kept]
    refine ⟨rest ++ more.map Written.record,?_,enacts_append.mpr ⟨_,reached,enacts⟩⟩
    rw [map_append,split,append_assoc]

section Steps

variable (logged : Journaled log header journal)
include logged

/-- One record is written, and the mirror does what it stands for. -/
theorem Journaled.note {base written : WalLog} (plain : record.isSnapshot = false)
    (encoded : record.encode codec = .ok body) (wrote : base.writeRecord record.tag body = .ok written)
    (onto : base.disk = log.disk) (disk : next.disk = written.disk)
    (enacted : record.enact log.mirror = .ok next.mirror) :
    ∃ more, Journaled next header (journal ++ more) ∧ more.map Written.record = [record] ∧
      next.mirror.snapshot = log.mirror.snapshot := by
  obtain ⟨fits,-,file⟩ := writeRecord_ok wrote
  rw [onto,write_run logged.file] at file
  obtain ⟨kept,same⟩ := @extend _ _ _ _ _ [⟨record,body,encoded,fits⟩] logged
    (by rw [disk,file,layout_cons,layout_nil,append_nil]; rfl)
    (.cons plain enacted (.nil _))
  exact ⟨_,kept,rfl,same⟩

theorem Journaled.saveHardState {state : HardState}
    (done : log.saveHardState codec state = .ok next) :
    ∃ more, Journaled next header (journal ++ more) ∧
      more.map Written.record = [Record.hardState state] ∧
      next.mirror.snapshot = log.mirror.snapshot := by
  obtain ⟨_,encoded,rest⟩ := bind_ok done
  obtain ⟨_,wrote,last⟩ := bind_ok rest
  cases last
  refine logged.note rfl encoded wrote rfl rfl ?_
  rw [(writeRecord_ok wrote).2.1]
  rfl

theorem Journaled.truncateFrom {index : Nat} (done : log.truncateFrom codec index = .ok next) :
    ∃ more, Journaled next header (journal ++ more) ∧
      more.map Written.record = [Record.truncate index] ∧
      next.mirror.snapshot = log.mirror.snapshot := by
  obtain ⟨_,cut,rest⟩ := bind_ok done
  obtain ⟨_,encoded,wrote⟩ := bind_ok rest
  refine logged.note rfl encoded wrote rfl rfl ?_
  rw [(writeRecord_ok wrote).2.1]
  exact cut

theorem Journaled.append (done : log.append codec entries = .ok next) :
    ∃ more, Journaled next header (journal ++ more) ∧
      more.map Written.record = entries.map Record.entry ∧
      next.mirror.snapshot = log.mirror.snapshot := by
  obtain ⟨_,-,rest⟩ := bind_ok done
  obtain ⟨_,wrote,rest⟩ := bind_ok rest
  obtain ⟨_,appended,last⟩ := bind_ok rest
  cases last
  obtain ⟨more,records,mirrored,disk⟩ := writeEntries_ok logged.file wrote
  rw [mirrored] at appended
  obtain ⟨numbered,result⟩ := append_inv appended
  have enacts := enacts_entries numbered
  rw [← records,← result] at enacts
  exact ⟨more,and_left_comm.mp ⟨records,logged.extend disk enacts⟩⟩

end Steps

/-! ### Compaction -/

inductive SnapshotCall where
  | save
  | install
  deriving DecidableEq

def SnapshotCall.onMirror (call : SnapshotCall) (mirror : MemoryLog) (snapshot : Snapshot) :
    Except RaftError MemoryLog :=
  match call with
  | .save => mirror.saveSnapshot snapshot
  | .install => .ok (mirror.installSnapshot snapshot)

def WalLog.compact (codec : WalCodec) (log : WalLog) (call : SnapshotCall) (snapshot : Snapshot) :
    Except RaftError WalLog :=
  match call with
  | .save => log.saveSnapshot codec snapshot
  | .install => log.installSnapshot codec snapshot

def compactionSteps (codec : WalCodec) (mirror : MemoryLog) (snapshot : Snapshot) :
    Except RaftError (List DiskStep) := do
  let first ← WalLog.sidecarSteps codec snapshot
  let buffer ← WalLog.regeneratedBytes codec mirror
  return first ++ WalLog.regenerateSteps buffer

/-- The same steps, with the bytes of the two new files. -/
def replacingSteps (sidecar buffer : Bytes) : List DiskStep :=
  [.create .draft,.write .draft sidecar,.rename .draft .sidecar,.create .regenerated,
    .write .regenerated buffer,.rename .regenerated .log]

def sidecarBytes (body : Bytes) : Bytes := littleEndian 2 formatVersion ++ framed tagSnapshot body

theorem appendFramed_ok {out : Bytes} (done : appendFramed out tag body = .ok bytes) :
    body.length ≤ u32Max ∧ bytes = out ++ framed tag body := by
  unfold appendFramed at done
  split at done
  · rename_i fits
    cases done
    exact ⟨fits,rfl⟩
  · cases done

theorem sidecarSteps_ok {steps : List DiskStep}
    (done : WalLog.sidecarSteps codec snapshot = .ok steps) :
    ∃ body, codec.snapshot.encode snapshot = .ok body ∧ body.length ≤ u32Max ∧
      steps = [.create .draft,.write .draft (sidecarBytes body),.rename .draft .sidecar] := by
  obtain ⟨body,encoded,rest⟩ := bind_ok done
  obtain ⟨_,framedOk,last⟩ := bind_ok rest
  obtain ⟨fits,same⟩ := appendFramed_ok framedOk
  cases last
  rw [same]
  exact ⟨body,encoded,fits,rfl⟩

theorem compact_ok (done : log.compact codec call snapshot = .ok next) :
    ∃ body buffer, call.onMirror log.mirror snapshot = .ok next.mirror ∧
      codec.snapshot.encode snapshot = .ok body ∧ body.length ≤ u32Max ∧
      WalLog.regeneratedBytes codec next.mirror = .ok buffer ∧
      compactionSteps codec next.mirror snapshot = .ok (replacingSteps (sidecarBytes body) buffer) ∧
      next.disk = log.disk.runAll (replacingSteps (sidecarBytes body) buffer) := by
  have unrolled : ∃ mirror, call.onMirror log.mirror snapshot = .ok mirror ∧
      (({ log with mirror := mirror }.writeSnapshotSidecar codec snapshot) >>= fun written =>
        written.regenerate codec) = .ok next := by
    cases call with
    | save => exact bind_ok done
    | install => exact ⟨log.mirror.installSnapshot snapshot,rfl,done⟩
  obtain ⟨_,mirrored,tail⟩ := unrolled
  obtain ⟨_,wrote,regenerated⟩ := bind_ok tail
  obtain ⟨_,sidecar,last⟩ := bind_ok wrote
  obtain ⟨body,encoded,fits,same⟩ := sidecarSteps_ok sidecar
  cases last
  obtain ⟨buffer,buffered,last⟩ := bind_ok regenerated
  cases last
  refine ⟨body,buffer,mirrored,encoded,fits,buffered,?_,?_⟩
  · unfold compactionSteps
    rw [sidecar,same]
    rw [buffered]
    rfl
  · rw [same]
    rfl

theorem framedEntries_ok (done : entries.foldlM (fun buffer entry => do
        let body ← codec.entry.encode entry
        appendFramed buffer tagEntry body)
      buffer = .ok bytes) :
    ∃ journal : List (Written codec), journal.map Written.record = entries.map Record.entry ∧
      bytes = buffer ++ layout journal := by
  induction entries generalizing buffer with
  | nil =>
    cases done
    exact ⟨[],rfl,(append_nil _).symm⟩
  | cons entry rest ih =>
    obtain ⟨_,first,others⟩ := bind_ok done
    obtain ⟨body,encoded,framedOk⟩ := bind_ok first
    obtain ⟨fits,same⟩ := appendFramed_ok framedOk
    obtain ⟨journal,records,laid⟩ := ih others
    refine ⟨⟨.entry entry,body,encoded,fits⟩ :: journal,?_,?_⟩
    · rw [map_cons,map_cons,records]
    · rw [laid,same,layout_cons,append_assoc]
      rfl

theorem regeneratedBytes_ok (done : WalLog.regeneratedBytes codec mirror = .ok buffer) :
    ∃ journal : List (Written codec), buffer = prologue ++ layout journal ∧
      journal.map Written.record = boundaryRecords mirror.snapshot ++
        (.hardState mirror.hardState :: mirror.entries.map Record.entry) := by
  obtain ⟨front,fronted,rest⟩ := bind_ok done
  obtain ⟨hardBody,hardEncoded,rest⟩ := bind_ok rest
  obtain ⟨_,hardFramed,rest⟩ := bind_ok rest
  obtain ⟨hardFits,hardSame⟩ := appendFramed_ok hardFramed
  obtain ⟨entries,records,laid⟩ := framedEntries_ok rest
  let hard : Written codec := ⟨.hardState mirror.hardState,hardBody,hardEncoded,hardFits⟩
  have first : ∃ leading : List (Written codec), front = prologue ++ layout leading ∧
      leading.map Written.record = boundaryRecords mirror.snapshot := by
    unfold WalLog.regeneratedFront snapshotMeta at fronted
    cases held : mirror.snapshot with
    | none =>
      rw [held] at fronted
      cases fronted
      exact ⟨[],(append_nil _).symm,rfl⟩
    | some snapshot =>
      rw [held] at fronted
      obtain ⟨body,encoded,framedOk⟩ := bind_ok fronted
      obtain ⟨fits,same⟩ := appendFramed_ok framedOk
      refine ⟨[⟨.snapshot snapshot.info,body,encoded,fits⟩],?_,rfl⟩
      rw [same,layout_cons,layout_nil,append_nil]
      rfl
  obtain ⟨leading,laidFirst,leadingRecords⟩ := first
  refine ⟨leading ++ hard :: entries,?_,?_⟩
  · rw [laid,hardSame,laidFirst,layout_append,layout_cons]
    simp only [append_assoc]
    rfl
  · rw [map_append,map_cons,leadingRecords,records]

/-- A record that restates the boundary changes nothing. -/
theorem replayAll_boundary {snapshot : Option Snapshot}
    (records : journal.map Written.record = boundaryRecords snapshot) :
    replayAll journal (.over snapshot) = .ok (.over snapshot) := by
  cases snapshot with
  | none =>
    rw [map_eq_nil_iff.mp records]
    rfl
  | some snapshot =>
    rw [replayAll_single records]
    exact if_pos (Nat.le_refl _)

theorem Journaled.replays (logged : Journaled log header journal) :
    replayAll journal (.over log.mirror.snapshot) = .ok log.mirror := by
  obtain ⟨_,records,enacts⟩ := logged.enacted
  obtain ⟨_,_,split,leadingRecords,otherRecords⟩ := map_eq_append_iff.mp records
  rw [split,replayAll_append,replayAll_boundary leadingRecords]
  rw [← otherRecords] at enacts
  exact enacts.replayAll

theorem enacts_mirror (dense : mirror.Contiguous) :
    Enacts (.over mirror.snapshot)
      (.hardState mirror.hardState :: mirror.entries.map Record.entry) mirror := by
  refine .cons rfl rfl ?_
  have starts : ((MemoryLog.over mirror.snapshot).saveHardState mirror.hardState).lastIndex =
      mirror.boundary := by
    unfold lastIndex MemoryLog.saveHardState boundary
    simp
  have numbered : Numbered mirror.boundary mirror.entries := dense
  rw [← starts] at numbered
  have enacts := enacts_entries numbered
  unfold MemoryLog.saveHardState at enacts ⊢
  rw [over_entries,over_snapshot] at enacts ⊢
  exact enacts

theorem SnapshotCall.onMirror_ok {next : MemoryLog} (dense : mirror.Contiguous)
    (done : call.onMirror mirror snapshot = .ok next) :
    next.snapshot = some snapshot ∧ next.Contiguous ∧
      ∀ entry ∈ next.entries, entry ∈ mirror.entries := by
  cases call with
  | save =>
    have saved := saveSnapshot_eq dense done
    have newer := boundary_le_of_saveSnapshot done
    have kept := drop_any (snapshot.info.lastIndex - mirror.boundary) dense
    rw [Nat.add_sub_cancel' newer] at kept
    subst saved
    exact ⟨rfl,kept,fun entry mem => mem_of_mem_drop mem⟩
  | install =>
    cases done
    exact ⟨rfl,nil _,forall_mem_nil _⟩

theorem runAll_replacing (disk : Disk) (sidecar buffer : Bytes) :
    disk.runAll (replacingSteps sidecar buffer) .log = some buffer ∧
      disk.runAll (replacingSteps sidecar buffer) .sidecar = some sidecar := by
  constructor <;> simp [Disk.runAll,replacingSteps,DiskStep.run,Function.update]

theorem compact_journaled
    (dense : log.mirror.Contiguous) (done : log.compact codec call snapshot = .ok next) :
    ∃ journal : List (Written codec), Journaled next prologue journal ∧
      journal.map Written.record = boundaryRecords next.mirror.snapshot ++
        (.hardState next.mirror.hardState :: next.mirror.entries.map Record.entry) := by
  obtain ⟨body,buffer,mirrored,encoded,fits,buffered,-,disk⟩ := compact_ok done
  obtain ⟨held,numbered,-⟩ := SnapshotCall.onMirror_ok dense mirrored
  obtain ⟨journal,laid,records⟩ := regeneratedBytes_ok buffered
  obtain ⟨logFile,sidecarFile⟩ := runAll_replacing log.disk (sidecarBytes body) buffer
  refine ⟨journal,⟨?_,?_,numbered,?_⟩,records⟩
  · rw [disk,logFile,laid]
  · rw [disk,sidecarFile,held]
    exact .present snapshot body encoded fits
  · exact ⟨_,records,enacts_mirror numbered⟩

/-! ### Opening again -/

section Reopening

theorem Journaled.opens (logged : Journaled log prologue journal) (policy : FsyncPolicy)
    (legible : ∀ written ∈ journal, written.Legible)
    (fits : sidecarFits codec log.mirror.snapshot = true) :
    WalLog.openFiles codec policy log.disk = .ok
      { disk := log.disk
        mirror := log.mirror
        policy := policy
        unsynced := 0
        recoveredBytes := prologueLen + (layout journal).length
        outcome := .intact } := by
  rw [openFiles_layout policy logged.sidecar fits logged.file legible,logged.replays]
  rfl

theorem Journaled.unopened (logged : Journaled log prologue journal) (policy : FsyncPolicy)
    (illegible : ¬ ((∀ written ∈ journal, written.Legible) ∧
      sidecarFits codec log.mirror.snapshot = true)) :
    ∃ fault, WalLog.openFiles codec policy log.disk = .error fault := by
  cases fits : sidecarFits codec log.mirror.snapshot with
  | false => exact openFiles_sidecar policy logged.sidecar fits
  | true =>
    exact openFiles_oversized policy logged.sidecar fits logged.file fun legible =>
      illegible ⟨legible,fits⟩

variable {policy : FsyncPolicy}

theorem Journaled.reopen (logged : Journaled log prologue journal)
    (done : WalLog.openFiles codec policy log.disk = .ok next) :
    Journaled next prologue journal ∧ next.mirror = log.mirror := by
  by_cases readable : (∀ written ∈ journal, written.Legible) ∧
      sidecarFits codec log.mirror.snapshot = true
  · rw [logged.opens policy readable.1 readable.2] at done
    cases done
    exact ⟨logged.congr rfl rfl,rfl⟩
  · obtain ⟨_,refused⟩ := logged.unopened policy readable
    rw [refused] at done
    cases done

theorem Record.tag_start (record : Record) :
    ∃ third fourth, littleEndian 4 record.tag = [0x41,0x57,third,fourth] := by
  cases record with
  | entry => exact ⟨0x65,0x31,(by decide : littleEndian 4 tagEntry = _)⟩
  | hardState => exact ⟨0x68,0x31,(by decide : littleEndian 4 tagHardState = _)⟩
  | truncate => exact ⟨0x74,0x31,(by decide : littleEndian 4 tagTruncate = _)⟩
  | snapshot => exact ⟨0x73,0x31,(by decide : littleEndian 4 tagSnapshot = _)⟩

/-- Records without a prologue in front are not taken for a log. -/
theorem replay_headless (written : Written codec) (rest : List (Written codec))
    (mirror : MemoryLog) :
    replay codec (layout (written :: rest)) mirror =
      .error (.corrupt 0 "the file does not start with the ASTRSWAL magic") := by
  have enough : prologueLen ≤ (layout (written :: rest)).length := by
    rw [layout_cons,length_append,Written.bytes,length_framed]
    have : prologueLen ≤ recordOverhead := by decide
    omega
  have found : slice (layout (written :: rest)) 0 prologueLen =
      some ((layout (written :: rest)).take prologueLen) := by
    unfold slice
    rw [if_pos ⟨Nat.zero_le _,enough⟩,drop_zero]
  have mismatch : ((layout (written :: rest)).take prologueLen).take fileMagic.length ≠
      fileMagic := by
    obtain ⟨_,_,starts⟩ := written.record.tag_start
    rw [layout_cons,Written.bytes,framed,starts]
    simp [prologueLen,fileMagic]
  unfold replay
  rw [found]
  dsimp only
  rw [if_pos mismatch]

/-- A log whose file lost its prologue opens only while nothing was written to it. -/
theorem Journaled.reopen_headless (logged : Journaled log [] journal)
    (done : WalLog.openFiles codec policy log.disk = .ok next) :
    journal = [] ∧ Journaled next [] journal ∧ next.mirror = log.mirror := by
  cases fits : sidecarFits codec log.mirror.snapshot with
  | false =>
    obtain ⟨_,refused⟩ := openFiles_sidecar policy logged.sidecar fits
    rw [refused] at done
    cases done
  | true =>
    rw [openFiles_file policy logged.sidecar fits logged.file,nil_append] at done
    cases journal with
    | cons =>
      rw [replay_headless] at done
      cases done
    | nil =>
      have mirrored : MemoryLog.over log.mirror.snapshot = log.mirror :=
        Except.ok.inj logged.replays
      have file : log.disk .log = some [] := logged.file
      have kept : Function.update log.disk .log (some []) = log.disk := by
        rw [← file,Function.update_eq_self]
      cases done
      exact ⟨rfl,logged.congr kept mirrored,mirrored⟩

end Reopening

theorem Written.legible_iff (written : Written codec) :
    written.Legible ↔ bodyFits (written.record.encode codec) = true := by
  rw [written.encoded]
  change written.body.length ≤ maxRecordBody ↔ decide (written.body.length ≤ maxRecordBody) = true
  exact decide_eq_true_iff.symm

def WalOperation.compacts : WalOperation → Bool
  | .saveSnapshot _ | .installSnapshot _ => true
  | _ => false

def WalOperation.records : WalOperation → List Record
  | .append entries => entries.map Record.entry
  | .truncateFrom index => [.truncate index]
  | .saveHardState state => [.hardState state]
  | _ => []

/-- The reader accepts the bodies, and every index has a successor in 64 bits. -/
def WalOperation.fits (codec : WalCodec) : WalOperation → Bool
  | .append entries => entries.all fun entry =>
    decide (entry.index < u64Max) && bodyFits (codec.entry.encode entry)
  | .saveSnapshot snapshot | .installSnapshot snapshot =>
    decide (snapshot.info.lastIndex < u64Max) &&
      (bodyFits (codec.snapshot.encode snapshot) && bodyFits (codec.info.encode snapshot.info))
  | _ => true

end Astrs.Raft
