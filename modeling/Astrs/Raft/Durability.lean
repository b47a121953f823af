/-
What the write-ahead log keeps across restarts, torn writes and interrupted compactions.

A reader with a smaller limit than the writer loses the whole file to one large body, and
a tear inside the prologue is repaired to an empty file that later records follow without
a prologue.
-/

import Astrs.Raft.Oxicode
import Astrs.Raft.Recovery

namespace Astrs.Raft

open Astrs.Base List WalLog Written

variable {codec : WalCodec}

/-! ### Runs keep the journal -/

/-- The start of the log file, which a torn prologue takes away. -/
def heading (headed : Bool) : Bytes := if headed then prologue else []

def Readable (log : WalLog) (journal : List (Written codec)) : Prop :=
  (∀ written ∈ journal, written.Legible) ∧ sidecarFits codec log.mirror.snapshot = true

variable {journal : List (Written codec)} {log : WalLog} {entry : LogEntry} {command : Bytes}
  {mirror final : MemoryLog}

theorem legible_of_records
    (fits : ∀ record ∈ journal.map Written.record, bodyFits (record.encode codec) = true) :
    ∀ written ∈ journal, written.Legible := by
  intro written mem
  rw [legible_iff]
  exact fits written.record (mem_map_of_mem mem)

theorem Readable.extend {next : WalLog} {more : List (Written codec)}
    (readable : Readable log journal) (kept : next.mirror.snapshot = log.mirror.snapshot)
    (fits : ∀ record ∈ more.map Written.record, bodyFits (record.encode codec) = true) :
    Readable next (journal ++ more) := by
  refine ⟨?_,?_⟩
  · exact forall_mem_append.mpr ⟨readable.1,legible_of_records fits⟩
  · rw [kept]
    exact readable.2

theorem bodyFits_hardState (codec : WalCodec) (state : HardState) :
    bodyFits (codec.hardState.encode state) = true := by
  cases encoded : codec.hardState.encode state with
  | error => rfl
  | ok body => exact decide_eq_true (codec.hardState_small state body encoded)

theorem bodyFits_index (codec : WalCodec) (index : Nat) :
    bodyFits (codec.index.encode index) = true := by
  cases encoded : codec.index.encode index with
  | error => rfl
  | ok body => exact decide_eq_true (codec.index_small index body encoded)

structure Advances (operations : List WalOperation) (log : WalLog) (headed : Bool)
    (journal : List (Written codec)) (next : WalLog) (headedNext : Bool)
    (journalNext : List (Written codec)) : Prop where
  journaled : Journaled next (heading headedNext) journalNext
  compacted : (∃ operation ∈ operations, operation.compacts = true) →
    headedNext = true ∧ next.mirror.snapshot ≠ none
  plain : (∀ operation ∈ operations, operation.compacts = false) →
    headedNext = headed ∧ next.mirror.snapshot = log.mirror.snapshot ∧
      journalNext.map Written.record =
        journal.map Written.record ++ operations.flatMap WalOperation.records
  readable : (∀ operation ∈ operations, operation.fits codec = true) →
    Readable log journal → Readable next journalNext

theorem uncompacted_of {operations : List WalOperation}
    (none : ¬ ∃ operation ∈ operations, operation.compacts = true) :
    ∀ operation ∈ operations, operation.compacts = false := by
  intro operation mem
  rw [Bool.eq_false_iff]
  exact fun compacts => none ⟨operation,mem,compacts⟩

section Step

variable {next : WalLog} {headed : Bool} {journalNext : List (Written codec)} {policy : FsyncPolicy}

theorem Readable.compacted {call : SnapshotCall} {snapshot : Snapshot}
    (readable : Readable log journal) (logged : Journaled log (heading headed) journal)
    (mirrored : call.onMirror log.mirror snapshot = .ok next.mirror)
    (records : journalNext.map Written.record = boundaryRecords next.mirror.snapshot ++
      (.hardState next.mirror.hardState :: next.mirror.entries.map Record.entry))
    (snapshotFits : bodyFits (codec.snapshot.encode snapshot) = true)
    (infoFits : bodyFits (codec.info.encode snapshot.info) = true) : Readable next journalNext := by
  obtain ⟨held,-,within⟩ := SnapshotCall.onMirror_ok logged.contiguous mirrored
  obtain ⟨_,split,enacts⟩ := logged.enacted
  refine ⟨legible_of_records ?_,?_⟩
  · intro record mem
    rw [records,held] at mem
    rcases mem_append.mp mem with front | rest
    · rw [mem_singleton.mp front]
      exact infoFits
    · rcases mem_cons.mp rest with own | entry
      · rw [own]
        exact bodyFits_hardState codec _
      · obtain ⟨item,kept,same⟩ := mem_map.mp entry
        rw [← same]
        rcases (enacts.keeps (MemoryLog.over_contiguous _)).2.2 item (within item kept) with
          old | noted
        · rw [MemoryLog.over_entries] at old
          exact absurd old not_mem_nil
        · obtain ⟨written,inside,record⟩ := mem_map.mp (split ▸ mem_append_right _ noted)
          have legible := readable.1 written inside
          rw [legible_iff,record] at legible
          exact legible
  · rw [held]
    exact snapshotFits

theorem Journaled.compact (logged : Journaled log (heading headed) journal)
    (operation : WalOperation) (call : SnapshotCall) (snapshot : Snapshot)
    (done : log.compact codec call snapshot = .ok next) (compacts : operation.compacts = true)
    (fits : operation.fits codec = true → bodyFits (codec.snapshot.encode snapshot) = true ∧
        bodyFits (codec.info.encode snapshot.info) = true) :
    ∃ journalNext, Advances [operation] log headed journal next true journalNext := by
  obtain ⟨journalNext,kept,records⟩ := compact_journaled logged.contiguous done
  obtain ⟨-,-,mirrored,-⟩ := compact_ok done
  refine ⟨journalNext,kept,?_,?_,?_⟩
  · intro _
    refine ⟨rfl,?_⟩
    rw [(SnapshotCall.onMirror_ok logged.contiguous mirrored).1]
    exact nofun
  · intro none
    rw [none operation (mem_singleton_self _)] at compacts
    cases compacts
  · intro small readable
    have both := fits (small operation (mem_singleton_self _))
    exact readable.compacted logged mirrored records both.1 both.2

theorem Advances.adding {operation : WalOperation} {more : List (Written codec)}
    (logged : Journaled next (heading headed) (journal ++ more))
    (plain : operation.compacts = false) (kept : next.mirror.snapshot = log.mirror.snapshot)
    (records : more.map Written.record = operation.records) (fits : operation.fits codec = true →
      ∀ record ∈ operation.records, bodyFits (record.encode codec) = true) :
    Advances [operation] log headed journal next headed (journal ++ more) := by
  refine ⟨logged,?_,?_,?_⟩
  · rintro ⟨_,mem,compacts⟩
    rw [mem_singleton.mp mem,plain] at compacts
    cases compacts
  · intro _
    refine ⟨rfl,kept,?_⟩
    rw [map_append,records,List.flatMap_singleton]
  · intro small readable
    refine readable.extend kept ?_
    rw [records]
    exact fits (small operation (mem_singleton_self _))

theorem Journaled.step (logged : Journaled log (heading headed) journal)
    (operation : WalOperation) (done : log.perform codec operation = .ok next) :
    ∃ headedNext journalNext,
      Advances [operation] log headed journal next headedNext journalNext := by
  -- An operation that leaves the files alone adds an empty list of records.
  have unchanged : operation.compacts = false → operation.records = [] →
      Journaled next (heading headed) journal → next.mirror = log.mirror →
      ∃ headedNext journalNext,
        Advances [operation] log headed journal next headedNext journalNext := by
    intro plain empty kept mirrored
    rw [← append_nil journal] at kept
    refine ⟨headed,journal ++ [],Advances.adding kept plain (by rw [mirrored]) empty.symm ?_⟩
    intro _ _ mem
    rw [empty] at mem
    exact absurd mem not_mem_nil
  cases operation with
  | append =>
    obtain ⟨more,kept,records,same⟩ := logged.append done
    refine ⟨headed,journal ++ more,Advances.adding kept rfl same records ?_⟩
    intro fits _ mem
    obtain ⟨entry,inside,equal⟩ := mem_map.mp mem
    rw [← equal]
    exact (Bool.and_eq_true_iff.mp (all_eq_true.mp fits entry inside)).2
  | truncateFrom index =>
    obtain ⟨more,kept,records,same⟩ := logged.truncateFrom done
    refine ⟨headed,journal ++ more,Advances.adding kept rfl same records ?_⟩
    intro _ _ mem
    rw [mem_singleton.mp mem]
    exact bodyFits_index codec index
  | saveHardState state =>
    obtain ⟨more,kept,records,same⟩ := logged.saveHardState done
    refine ⟨headed,journal ++ more,Advances.adding kept rfl same records ?_⟩
    intro _ _ mem
    rw [mem_singleton.mp mem]
    exact bodyFits_hardState codec state
  | saveSnapshot snapshot =>
    obtain ⟨journalNext,advances⟩ := logged.compact (.saveSnapshot snapshot) .save snapshot
      done rfl fun fits => Bool.and_eq_true_iff.mp (Bool.and_eq_true_iff.mp fits).2
    exact ⟨true,journalNext,advances⟩
  | installSnapshot snapshot =>
    obtain ⟨journalNext,advances⟩ := logged.compact (.installSnapshot snapshot) .install
      snapshot done rfl fun fits => Bool.and_eq_true_iff.mp (Bool.and_eq_true_iff.mp fits).2
    exact ⟨true,journalNext,advances⟩
  | sync =>
    cases done
    exact unchanged rfl rfl (logged.congr rfl rfl) rfl
  | reopen =>
    cases headed with
    | true =>
      obtain ⟨kept,mirrored⟩ := logged.reopen done
      exact unchanged rfl rfl kept mirrored
    | false =>
      obtain ⟨-,kept,mirrored⟩ := logged.reopen_headless done
      exact unchanged rfl rfl kept mirrored

theorem Advances.trans {first second : List WalOperation} {middle : WalLog}
    {headedMiddle headedNext : Bool} {journalMiddle : List (Written codec)}
    (before : Advances first log headed journal middle headedMiddle journalMiddle)
    (after : Advances second middle headedMiddle journalMiddle next headedNext journalNext) :
    Advances (first ++ second) log headed journal next headedNext journalNext := by
  refine ⟨after.journaled,?_,?_,?_⟩
  · rintro ⟨operation,mem,compacts⟩
    by_cases later : ∃ operation ∈ second, operation.compacts = true
    · exact after.compacted later
    · obtain ⟨stays,kept,-⟩ := after.plain (uncompacted_of later)
      rcases mem_append.mp mem with early | late
      · rw [stays,kept]
        exact before.compacted ⟨operation,early,compacts⟩
      · exact absurd ⟨operation,late,compacts⟩ later
  · intro none
    obtain ⟨headedFirst,keptFirst,recordsFirst⟩ :=
      before.plain fun operation mem => none operation (mem_append_left _ mem)
    obtain ⟨headedLater,keptLater,recordsLater⟩ :=
      after.plain fun operation mem => none operation (mem_append_right _ mem)
    refine ⟨headedLater.trans headedFirst,keptLater.trans keptFirst,?_⟩
    rw [recordsLater,recordsFirst,List.flatMap_append,append_assoc]
  · intro fits readable
    exact after.readable (fun operation mem => fits operation (mem_append_right _ mem))
      (before.readable (fun operation mem => fits operation (mem_append_left _ mem)) readable)

theorem Journaled.run (logged : Journaled log (heading headed) journal)
    (operations : List WalOperation) (done : log.performAll codec operations = .ok next) :
    ∃ headedNext journalNext,
      Advances operations log headed journal next headedNext journalNext := by
  induction operations generalizing log headed journal with
  | nil =>
    cases done
    refine ⟨headed,journal,logged,?_,?_,fun _ readable => readable⟩
    · rintro ⟨operation,mem,-⟩
      exact absurd mem not_mem_nil
    · intro _
      exact ⟨rfl,rfl,(append_nil _).symm⟩
  | cons operation rest ih =>
    obtain ⟨_,first,others⟩ := bind_ok done
    obtain ⟨_,_,advances⟩ := logged.step operation first
    obtain ⟨headedNext,journalNext,later⟩ := ih advances.journaled others
    exact ⟨headedNext,journalNext,advances.trans later⟩

theorem open_fresh (opened : openFiles codec policy (fun _ => none) = .ok log) :
    log.mirror = MemoryLog.new ∧ Journaled log (heading true) ([] : List (Written codec)) := by
  cases opened
  exact ⟨rfl,rfl,.absent,Numbered.nil _,[],rfl,.nil _⟩

theorem start_run {operations : List WalOperation}
    (ran : start codec policy operations = .ok next) :
    ∃ log journalNext, log.mirror = MemoryLog.new ∧ Readable log ([] : List (Written codec)) ∧
      Advances operations log true [] next true (journalNext : List (Written codec)) := by
  obtain ⟨log,opened,done⟩ := bind_ok ran
  obtain ⟨mirrored,fresh⟩ := open_fresh opened
  obtain ⟨headedNext,journalNext,advances⟩ := fresh.run operations done
  have headed : headedNext = true := by
    by_cases compacted : ∃ operation ∈ operations, operation.compacts = true
    · exact (advances.compacted compacted).1
    · exact (advances.plain (uncompacted_of compacted)).1
  subst headed
  refine ⟨log,journalNext,mirrored,⟨?_,?_⟩,advances⟩
  · exact forall_mem_nil _
  · rw [mirrored]
    rfl

end Step

theorem wal_replay_reproduces (policy later : FsyncPolicy) (operations : List WalOperation)
    (log : WalLog) (ran : WalLog.start codec policy operations = .ok log)
    (fits : ∀ operation ∈ operations, operation.fits codec = true) :
    ∃ reopened, WalLog.openFiles codec later log.disk = .ok reopened ∧
      reopened.mirror = log.mirror := by
  obtain ⟨_,_,-,blank,advances⟩ := start_run ran
  obtain ⟨legible,sidecar⟩ := advances.readable fits blank
  exact ⟨_,advances.journaled.opens later legible sidecar,rfl⟩

def sampleOperations : List WalOperation :=
  [.append [⟨1,1,.noop⟩,⟨1,2,.command [7]⟩,⟨1,3,.command [8]⟩],
    .saveHardState { term := 2, votedFor := some 3 },
    .truncateFrom 3,
    .saveSnapshot { info := ⟨1,1,Membership.new [1,2,3]⟩, data := [9] },
    .append [⟨2,3,.command [10]⟩]]

theorem wal_replay_reproduces_sample :
    ∃ log reopened, WalLog.start oxicode .always sampleOperations = .ok log ∧
      WalLog.openFiles oxicode .never log.disk = .ok reopened ∧ reopened.mirror = log.mirror := by
  obtain ⟨log,ran⟩ := exists_ok
    (by decide +kernel : (start oxicode .always sampleOperations).toBool = true)
  obtain ⟨reopened,opened,same⟩ :=
    wal_replay_reproduces .always .never sampleOperations log ran (by decide +kernel)
  exact ⟨log,reopened,ran,opened,same⟩

theorem append_one_ok {body : Bytes} (next : entry.index = log.mirror.lastIndex + 1)
    (encoded : codec.entry.encode entry = .ok body) (framable : body.length ≤ u32Max) :
    ∃ after, log.append codec [entry] = .ok after := by
  have numbered : Numbered log.mirror.lastIndex [entry] :=
    Numbered.cons_iff.mpr ⟨next,Numbered.nil _⟩
  have wrote : ∃ written, log.writeRecord tagEntry body = .ok written := by
    unfold writeRecord appendFramed
    rw [if_pos framable]
    exact ⟨_,rfl⟩
  obtain ⟨written,wrote⟩ := wrote
  have entries : log.writeEntries codec [entry] = .ok written := by
    unfold writeEntries
    rw [List.foldlM_cons,encoded]
    change (log.writeRecord tagEntry body >>= _) = _
    rw [wrote]
    rfl
  unfold append
  rw [MemoryLog.checkContiguous_ok numbered,entries]
  change ∃ after, (written.mirror.append [entry] >>= _) = .ok after
  rw [(writeRecord_ok wrote).2.1,MemoryLog.append_ok numbered]
  exact ⟨_,rfl⟩

theorem command_encoded (long : 65536 ≤ command.length) (fits : command.length < 4294967296) :
    ∃ body, oxicode.entry.encode { term := 1, index := 1, payload := .command command } = .ok body ∧
      body.length = command.length + 8 := by
  have counted : Coder.putVarint command.length = some (252 :: littleEndian 4 command.length) := by
    unfold Coder.putVarint
    rw [if_neg (by omega),if_neg (by omega),if_pos fits]
  have bytes : Oxicode.bytes.put command =
      some ((252 :: littleEndian 4 command.length) ++ command) := by
    change (Coder.putVarint command.length).bind _ = _
    rw [counted]
    rw [Coder.putItems_byte]
    rfl
  have payload : Oxicode.payload.put (.command command) =
      some (0 :: ((252 :: littleEndian 4 command.length) ++ command)) := by
    change (Oxicode.bytes.put command).map _ = _
    rw [bytes]
    rfl
  have put : Oxicode.entry.put { term := 1, index := 1, payload := .command command } =
      some ([1] ++ ([1] ++ (0 :: ((252 :: littleEndian 4 command.length) ++ command)))) := by
    change ((Coder.putVarint 1).bind fun front =>
      ((Coder.putVarint 1).bind fun second =>
        (Oxicode.payload.put (.command command)).bind fun third => some (second ++ third)).bind
          fun back => some (front ++ back)) = _
    rw [payload]
    rfl
  refine ⟨[1] ++ ([1] ++ (0 :: ((252 :: littleEndian 4 command.length) ++ command))),?_,?_⟩
  · exact Coder.encode_iff.mpr put
  · simp only [length_append,length_cons,length_nil,length_littleEndian]
    omega

theorem long_command_unreadable
    (same : entry = { term := 1, index := 1, payload := .command command })
    (long : maxRecordBody < command.length) (short : command.length + 8 < 4294967296) :
    ∃ log, start oxicode .always [.append [entry]] = .ok log ∧
      ∃ failure, openFiles oxicode .always log.disk = .error failure := by
  have least : 65536 ≤ maxRecordBody := by decide
  obtain ⟨body,encoded,_⟩ := @command_encoded command (by omega) (by omega)
  rw [← same] at encoded
  obtain ⟨fresh,opened⟩ := exists_ok
    (by decide +kernel : (openFiles oxicode .always fun _ => none).toBool = true)
  have empty := (open_fresh opened).1
  have first : entry.index = fresh.mirror.lastIndex + 1 := by
    rw [same,empty]
    rfl
  have room : body.length ≤ u32Max := by
    have limit : 4294967296 ≤ u32Max + 1 := by decide
    omega
  obtain ⟨log,appended⟩ := append_one_ok first encoded room
  have ran : start oxicode .always [.append [entry]] = .ok log := by
    unfold start
    rw [opened]
    change (fresh.append oxicode [entry] >>= _) = _
    rw [appended]
    rfl
  refine ⟨log,ran,?_⟩
  obtain ⟨_,journal,-,-,advances⟩ := start_run ran
  have plain : ∀ operation ∈ [WalOperation.append [entry]], operation.compacts = false := by
    intro _ mem
    rw [mem_singleton.mp mem]
    rfl
  obtain ⟨-,-,records⟩ := advances.plain plain
  refine advances.journaled.unopened .always ?_
  rintro ⟨legible,-⟩
  have noted : Record.entry entry ∈ journal.map Written.record := by
    rw [records]
    exact mem_singleton_self _
  obtain ⟨written,mem,record⟩ := mem_map.mp noted
  have fits := (legible_iff written).mp (legible written mem)
  rw [record] at fits
  change bodyFits (oxicode.entry.encode entry) = true at fits
  rw [encoded] at fits
  have small : body.length ≤ maxRecordBody := of_decide_eq_true fits
  omega

/-- An entry whose command alone is longer than the reader's limit. -/
def largeEntry : LogEntry :=
  { term := 1, index := 1, payload := .command (List.replicate 67108865 0) }

theorem large_entry_unreadable :
    ∃ log, WalLog.start oxicode .always [.append [largeEntry]] = .ok log ∧
      ∃ failure, WalLog.openFiles oxicode .always log.disk = .error failure := by
  refine @long_command_unreadable largeEntry (List.replicate 67108865 0) rfl ?_ ?_
  · rw [length_replicate]
    decide
  · rw [length_replicate]
    decide

/-! ### Torn files -/

def Record.size (codec : WalCodec) (record : Record) : Nat :=
  match record.encode codec with
  | .ok body => body.length + recordOverhead
  | .error _ => 0

def completeWithin (codec : WalCodec) : Nat → List Record → List Record
  | _,[] => []
  | room,record :: rest =>
    if record.size codec ≤ room then
      record :: completeWithin codec (room - record.size codec) rest
    else []

def loneFile (bytes : Bytes) : Disk
  | .log => some bytes
  | _ => none

theorem loneFile_update (bytes other : Bytes) :
    Function.update (loneFile bytes) .log (some other) = loneFile other := by
  funext file
  cases file <;> rfl

theorem Written.length_bytes (written : Written codec) :
    written.bytes.length = written.record.size codec := by
  unfold bytes Record.size
  rw [length_framed,written.encoded]

/-- An initial part of the file is whole records and a part of the next one. -/
theorem take_layout (room : Nat) (journal : List (Written codec)) :
    ∃ front rest count, journal = front ++ rest ∧
      front.map Written.record = completeWithin codec room (journal.map Written.record) ∧
      (layout journal).take room = layout front ++ (layout rest).take count ∧
      ∀ written ∈ rest.head?, count < written.bytes.length := by
  induction journal generalizing room with
  | nil => exact ⟨[],[],0,rfl,rfl,by simp,nofun⟩
  | cons written others ih =>
    by_cases whole : written.record.size codec ≤ room
    · obtain ⟨front,rest,count,split,records,taken,torn⟩ := ih (room - written.record.size codec)
      refine ⟨written :: front,rest,count,?_,?_,?_,torn⟩
      · rw [split]
        rfl
      · rw [map_cons,map_cons,completeWithin,if_pos whole,records]
      · rw [← written.length_bytes] at taken whole
        rw [layout_cons,take_append,take_of_length_le whole,taken,layout_cons,append_assoc]
    · refine ⟨[],written :: others,room,rfl,?_,rfl,?_⟩
      · rw [map_cons,completeWithin,if_neg whole]
        rfl
      · intro _ mem
        cases mem
        rw [written.length_bytes]
        omega

section Torn

/-- Whole records followed by a part of the next one open to the whole records. -/
theorem openFiles_torn {front rest : List (Written codec)} {count : Nat}
    (policy : FsyncPolicy) (legible : ∀ written ∈ front ++ rest, written.Legible)
    (torn : ∀ written ∈ rest.head?, count < written.bytes.length)
    (replayed : replayAll front MemoryLog.new = .ok mirror) :
    ∃ reopened, openFiles codec policy
        (loneFile (prologue ++ (layout front ++ (layout rest).take count))) = .ok reopened ∧
      reopened.mirror = mirror ∧ reopened.disk = loneFile (prologue ++ layout front) := by
  have legibleFront : ∀ written ∈ front, written.Legible := fun written mem =>
    legible written (mem_append_left _ mem)
  by_cases clean : (layout rest).take count = []
  · have opened := @openFiles_layout codec front (loneFile (prologue ++ layout front)) none policy
      .absent rfl rfl legibleFront
    change _ = (replayAll front MemoryLog.new).map _ at opened
    rw [replayed] at opened
    rw [clean,append_nil]
    exact ⟨_,opened,rfl,rfl⟩
  · cases rest with
    | nil => exact absurd take_nil clean
    | cons written more =>
      have cut := torn written rfl
      have part : (layout (written :: more)).take count = written.bytes.take count := by
        rw [layout_cons,take_append_of_le_length (by omega)]
      have positive : 0 < count := by
        rcases Nat.eq_zero_or_pos count with zero | some
        · rw [zero] at clean
          exact absurd take_zero clean
        · exact some
      have read := replayRecords_torn legibleFront
        (legible written (mem_append_right _ mem_cons_self)) positive cut
        MemoryLog.new prologueLen
      rw [replayed] at read
      rw [part,openFiles_file policy .absent rfl rfl]
      change ∃ reopened, (replay codec _ MemoryLog.new).map _ = .ok reopened ∧ _
      rw [replay_prologue,read]
      have kept : (prologue ++ (layout front ++ written.bytes.take count)).take
          (prologueLen + (layout front).length) = prologue ++ layout front := by
        rw [← append_assoc,take_left' (by rw [length_append,length_prologue])]
      refine ⟨_,rfl,rfl,(loneFile_update _ _).trans ?_⟩
      rw [kept]

theorem take_prologue {rest : Bytes} {cut : Nat} (past : prologueLen ≤ cut) :
    (prologue ++ rest).take cut = prologue ++ rest.take (cut - prologueLen) := by
  rw [take_append,take_of_length_le (by rw [length_prologue]; exact past),length_prologue]

theorem torn_open (policy : FsyncPolicy) (logged : Journaled log prologue journal)
    (bare : log.mirror.snapshot = none) (legible : ∀ written ∈ journal, written.Legible)
    (cut : Nat) :
    ∃ (reopened : WalLog) (front : List (Written codec)),
      openFiles codec policy (loneFile ((prologue ++ layout journal).take cut)) =
        .ok reopened ∧
      front.map Written.record =
        completeWithin codec (cut - prologueLen) (journal.map Written.record) ∧
      enactAll (front.map Written.record) MemoryLog.new = .ok reopened.mirror ∧
      Journaled reopened (heading (decide (prologueLen ≤ cut))) front ∧
      Readable reopened front ∧ (cut < prologueLen → front = []) := by
  obtain ⟨front,rest,_,split,records,taken,torn⟩ := take_layout (cut - prologueLen) journal
  obtain ⟨others,fronted,enacts⟩ := logged.enacted
  rw [bare] at fronted enacts
  rw [show others = journal.map Written.record from fronted.symm,split,map_append] at enacts
  obtain ⟨mirror,reached,-⟩ := enacts_append.mp enacts
  obtain ⟨dense,kept,-⟩ := reached.keeps MemoryLog.new_contiguous
  have legibleFront : ∀ written ∈ front, written.Legible := by
    intro _ mem
    apply legible
    rw [split]
    exact mem_append_left _ mem
  -- The mirror, the file and the sidecar determine the rest.
  have finish : ∀ reopened : WalLog, reopened.mirror = mirror →
      reopened.disk = loneFile (heading (decide (prologueLen ≤ cut)) ++ layout front) →
      enactAll (front.map Written.record) MemoryLog.new = .ok reopened.mirror ∧
        Journaled reopened (heading (decide (prologueLen ≤ cut))) front ∧
        Readable reopened front := by
    intro _ mirrored disk
    rw [← mirrored] at reached dense kept
    refine ⟨reached.enactAll,⟨?_,?_,dense,front.map Written.record,?_,?_⟩,⟨legibleFront,?_⟩⟩
    · rw [disk]
      rfl
    · rw [disk,kept]
      exact .absent
    · rw [kept]
      rfl
    · rw [kept]
      exact reached
    · rw [kept]
      rfl
  by_cases past : prologueLen ≤ cut
  · rw [take_prologue past,taken]
    rw [split] at legible
    obtain ⟨reopened,opened,mirrored,disk⟩ :=
      openFiles_torn policy legible torn reached.replayAll
    have headed : heading (decide (prologueLen ≤ cut)) = prologue := by
      rw [decide_eq_true past]
      rfl
    obtain ⟨replays,kept,readable⟩ := finish reopened mirrored (by rw [disk,headed])
    exact ⟨reopened,front,opened,records,replays,kept,readable,fun short => by omega⟩
  · have none : front = [] := by
      have room : cut - prologueLen = 0 := by omega
      cases front with
      | nil => rfl
      | cons first =>
        exfalso
        rw [split,cons_append,map_cons,map_cons,completeWithin,
          if_neg (by rw [← first.length_bytes,bytes,length_framed,recordOverhead]; omega)]
          at records
        cases records
    subst none
    cases reached
    have short : ((prologue ++ layout journal).take cut).length < prologueLen := by
      rw [length_take]
      omega
    have headless : heading (decide (prologueLen ≤ cut)) = [] := by
      rw [decide_eq_false past]
      rfl
    have repaired : ∃ reopened,
        openFiles codec policy (loneFile ((prologue ++ layout journal).take cut)) =
          .ok reopened ∧
        reopened.mirror = MemoryLog.new ∧ reopened.disk = loneFile [] := by
      have opened := @openFiles_file codec _
        (loneFile ((prologue ++ layout journal).take cut)) none policy .absent rfl rfl
      rw [replay_short short] at opened
      exact ⟨_,opened,rfl,loneFile_update _ _⟩
    obtain ⟨reopened,opened,mirrored,disk⟩ := repaired
    obtain ⟨replays,kept,readable⟩ := finish reopened mirrored (by
      rw [disk,headless]
      rfl)
    exact ⟨reopened,[],opened,records,replays,kept,readable,fun _ => rfl⟩

end Torn

theorem Journaled.headless_opens (logged : Journaled log [] ([] : List (Written codec)))
    (policy : FsyncPolicy) (fits : sidecarFits codec log.mirror.snapshot = true) :
    ∃ again, openFiles codec policy log.disk = .ok again ∧ again.mirror = log.mirror := by
  have opened := openFiles_file policy logged.sidecar fits logged.file
  exact ⟨_,opened,Except.ok.inj logged.replays⟩

/-- A log whose file has no prologue opens only if it holds nothing. -/
theorem Journaled.headless_unopened
    (logged : Journaled log [] journal) (policy : FsyncPolicy) (wrote : journal ≠ []) :
    ∃ failure, openFiles codec policy log.disk = .error failure := by
  cases opened : openFiles codec policy log.disk with
  | error failure => exact ⟨failure,rfl⟩
  | ok => exact absurd (logged.reopen_headless opened).1 wrote

/-- Of a log without a sidecar, cut anywhere, the whole records are recovered.
What is done to the recovered log afterwards is found again if the cut left the
prologue, or a compaction wrote a new one, or nothing was written. -/
theorem torn_tail_recovered (policy later : FsyncPolicy) (operations : List WalOperation)
    (log : WalLog) (ran : WalLog.start codec policy operations = .ok log)
    (fits : ∀ operation ∈ operations, operation.fits codec = true) (bare : log.disk .sidecar = none)
    (bytes : Bytes) (file : log.disk .log = some bytes) (cut : Nat) :
    ∃ reopened, WalLog.openFiles codec later (loneFile (bytes.take cut)) = .ok reopened ∧ enactAll
        (completeWithin codec (cut - prologueLen) (operations.flatMap WalOperation.records))
        MemoryLog.new = .ok reopened.mirror ∧
      ∀ (more : List WalOperation) (final : WalLog) (last : FsyncPolicy),
        (∀ operation ∈ more, operation.fits codec = true) →
        reopened.performAll codec more = .ok final →
        ((∃ again, WalLog.openFiles codec last final.disk = .ok again ∧
            again.mirror = final.mirror) ↔
          (prologueLen ≤ cut ∨ (∃ operation ∈ more, operation.compacts = true) ∨
            more.flatMap WalOperation.records = [])) := by
  obtain ⟨_,journal,_,blank,advances⟩ := start_run ran
  have journaled : Journaled log prologue journal := advances.journaled
  obtain ⟨legible,-⟩ := advances.readable fits blank
  have snapshot : log.mirror.snapshot = none := by
    have holds := journaled.sidecar
    rw [bare] at holds
    generalize log.mirror.snapshot = held at holds
    cases holds
    rfl
  have plain := uncompacted_of fun compacts => (advances.compacted compacts).2 snapshot
  have records := (advances.plain plain).2.2
  have content : bytes = prologue ++ layout journal :=
    Option.some.inj (file.symm.trans journaled.file)
  obtain ⟨reopened,_,opened,within,reached,kept,readable,blankFront⟩ :=
    torn_open later journaled snapshot legible cut
  rw [records] at within
  rw [within] at reached
  rw [content]
  refine ⟨reopened,opened,reached,?_⟩
  intro more _ last small done
  obtain ⟨headed,journalNext,moved⟩ := kept.run more done
  obtain ⟨legibleNext,sidecarNext⟩ := moved.readable small readable
  have journaledNext := moved.journaled
  constructor
  · rintro ⟨_,found,-⟩
    by_contra none
    simp only [not_or] at none
    obtain ⟨before,uncompacted,wrote⟩ := none
    obtain ⟨stays,-,added⟩ := moved.plain (uncompacted_of uncompacted)
    rw [stays,decide_eq_false before] at journaledNext
    have some : journalNext ≠ [] := by
      intro nothing
      rw [nothing] at added
      exact wrote (append_eq_nil_iff.mp added.symm).2
    obtain ⟨_,refused⟩ := journaledNext.headless_unopened last some
    rw [refused] at found
    cases found
  · intro condition
    by_cases whole : headed = true
    · rw [whole] at journaledNext
      exact ⟨_,journaledNext.opens last legibleNext sidecarNext,rfl⟩
    · have lost : headed = false := Bool.eq_false_iff.mpr whole
      have uncompacted := uncompacted_of fun compacts => whole (moved.compacted compacts).1
      obtain ⟨stays,_,added⟩ := moved.plain uncompacted
      rcases condition with past | ⟨operation,member,compacts⟩ | silent
      · exact absurd (stays.trans (decide_eq_true past)) whole
      · rw [uncompacted operation member] at compacts
        cases compacts
      · have before : cut < prologueLen := by
          rw [stays,decide_eq_false_iff_not] at lost
          omega
        rw [silent,append_nil,blankFront before,map_nil,map_eq_nil_iff] at added
        rw [lost,added] at journaledNext
        exact journaledNext.headless_opens last sidecarNext

/-- A cut inside the third record, and another third entry after the recovery. -/
theorem torn_tail_recovered_sample : ∃ log bytes reopened final again,
      WalLog.start oxicode .always (sampleOperations.take 1) = .ok log ∧
      log.disk .log = some bytes ∧
      WalLog.openFiles oxicode .always (loneFile (bytes.take 50)) = .ok reopened ∧
      reopened.mirror.entries = [⟨1,1,.noop⟩,⟨1,2,.command [7]⟩] ∧
      reopened.performAll oxicode [.append [⟨3,3,.noop⟩]] = .ok final ∧
      WalLog.openFiles oxicode .always final.disk = .ok again ∧ again.mirror = final.mirror := by
  obtain ⟨log,ran⟩ := exists_ok
    (by decide +kernel : (start oxicode .always (sampleOperations.take 1)).toBool = true)
  have bare : log.disk .sidecar = none := by
    have evaluated : (start oxicode .always (sampleOperations.take 1)).map
        (fun log => log.disk .sidecar) = .ok none := by decide +kernel
    rw [ran] at evaluated
    exact Except.ok.inj evaluated
  obtain ⟨bytes,file⟩ : ∃ bytes, log.disk .log = some bytes := by
    obtain ⟨_,_,-,-,advances⟩ := start_run ran
    exact ⟨_,advances.journaled.file⟩
  obtain ⟨reopened,opened,reached,further⟩ :=
    torn_tail_recovered .always .always (sampleOperations.take 1) log ran (by decide +kernel) bare
      bytes file 50
  have evaluated : enactAll (completeWithin oxicode (50 - prologueLen)
      ((sampleOperations.take 1).flatMap WalOperation.records)) MemoryLog.new =
        .ok { MemoryLog.new with entries := [⟨1,1,.noop⟩,⟨1,2,.command [7]⟩] } := by
    decide +kernel
  have mirrored := Except.ok.inj (evaluated.symm.trans reached)
  obtain ⟨final,appended⟩ := @append_one_ok oxicode reopened ⟨3,3,.noop⟩ [3,3,1]
    (by rw [← mirrored]; rfl) (by rfl) (by decide)
  have ranOn : reopened.performAll oxicode [.append [⟨3,3,.noop⟩]] = .ok final := by
    change (reopened.append oxicode [⟨3,3,.noop⟩] >>= _) = _
    rw [appended]
    rfl
  obtain ⟨again,found,same⟩ :=
    (further [.append [⟨3,3,.noop⟩]] final .always (by decide +kernel) ranOn).mpr (.inl (by decide))
  refine ⟨log,bytes,reopened,final,again,ran,file,opened,?_,ranOn,found,same⟩
  rw [← mirrored]

/-- A file cut inside its prologue opens, takes an entry, and does not open again. -/
theorem torn_prologue_loses_log : ∃ log reopened final failure,
      WalLog.start oxicode .always [] = .ok log ∧ log.disk .log = some prologue ∧
      log.disk .sidecar = none ∧
      WalLog.openFiles oxicode .always (loneFile (prologue.take 4)) = .ok reopened ∧
      reopened.performAll oxicode [.append [⟨1,1,.noop⟩]] = .ok final ∧
      WalLog.openFiles oxicode .always final.disk = .error failure := by
  obtain ⟨_,ran⟩ := exists_ok (by decide +kernel : (start oxicode .always []).toBool = true)
  obtain ⟨final,whole⟩ := exists_ok (by decide +kernel :
      ((openFiles oxicode .always (loneFile (prologue.take 4))) >>= fun reopened =>
        reopened.performAll oxicode [.append [⟨1,1,.noop⟩]]).toBool = true)
  obtain ⟨reopened,opened,performed⟩ := bind_ok whole
  have lost : (((openFiles oxicode .always (loneFile (prologue.take 4))) >>= fun reopened =>
      reopened.performAll oxicode [.append [⟨1,1,.noop⟩]]) >>= fun final =>
        openFiles oxicode .always final.disk).toBool = false := by
    decide +kernel
  rw [whole] at lost
  change (openFiles oxicode .always final.disk).toBool = false at lost
  cases refused : openFiles oxicode .always final.disk with
  | ok =>
    rw [refused] at lost
    cases lost
  | error failure =>
    cases ran
    exact ⟨_,reopened,final,failure,rfl,rfl,rfl,opened,performed,refused⟩

end Astrs.Raft
