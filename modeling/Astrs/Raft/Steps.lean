/-
Everything a replica can do, as small steps.

Each step records the conditions the code has established when it takes it, so an
invariant of replicas is checked once per step and not once per function.  `merged`
remembers that the entries of the message being handled are in the log.
-/

import Astrs.Raft.Cluster
import Astrs.Raft.Log

namespace Astrs.Raft

open Astrs.Base OrderedMap

variable {M : Type}

section Rules

variable (node : RaftNode M) (fail : RaftNode M → Prop)

@[simp] theorem wp_send (recipient : PeerId) (message : RaftMessage)
    (post : Unit → RaftNode M → Prop) :
    Ensures (send recipient message) node post fail ↔
      post ()
        { node with
          outbox := node.outbox ++
            [{ sender := node.config.id, recipient := recipient, message := message }] } := Iff.rfl

@[simp] theorem wp_saveHardState (term : Nat) (votedFor : Option PeerId)
    (post : Unit → RaftNode M → Prop) :
    Ensures (saveHardState term votedFor) node post fail ↔
      post () (node.saveHardState term votedFor) := Iff.rfl

@[simp] theorem wp_liftLog_ok {α : Type} (value : α) (post : α → RaftNode M → Prop) :
    Ensures (liftLog (.ok value)) node post fail ↔ post value node := Iff.rfl

/-- A store operation that succeeds replaces the log. -/
theorem wp_updateLog {change : MemoryLog → Except RaftError MemoryLog} {node : RaftNode M}
    {log : MemoryLog} (changed : change node.log = .ok log) (post : Unit → RaftNode M → Prop) :
    Ensures (updateLog change) node post fail ↔ post () { node with log := log } := by
  unfold updateLog
  simp only [wp_bind,wp_get,changed,wp_liftLog_ok,wp_modify]

end Rules

/-- Saving a term and vote changes the replica's copy and the stored one only. -/
theorem RaftNode.saveHardState_eq (node : RaftNode M) (term : Nat) (votedFor : Option PeerId) :
    node.saveHardState term votedFor =
      { node with
        hard := { term := term, votedFor := votedFor }
        log := { node.log with
          hardState :=
            if ({ term := term, votedFor := votedFor } : HardState) = node.hard then
              node.log.hardState
            else { term := term, votedFor := votedFor } } } := by
  unfold RaftNode.saveHardState
  by_cases same : ({ term := term, votedFor := votedFor } : HardState) = node.hard
  · simp only [same,if_true]
  · simp only [same,if_false]
    rfl

/-! ### Steps -/

def MemoryLog.merged (log : MemoryLog) (entries : List LogEntry) : MemoryLog :=
  let point := mergePoint log entries
  let appended := entries.drop point.1
  let kept :=
    match point.2, appended with
    | true,entry :: _ => log.entries.take (entry.index - log.firstIndex)
    | _,_ => log.entries
  { log with entries := kept ++ appended }

def RaftNode.mergedMembership (node : RaftNode M) (entries : List LogEntry) : Membership :=
  if (mergePoint node.log entries).2 ||
      (entries.drop (mergePoint node.log entries).1).any LogEntry.isConfig then
    Membership.fromEntries node.baseMembership (node.log.merged entries).entries
  else node.membership

/-- A replica in the middle of an operation. -/
structure Moment (M : Type) where
  node : RaftNode M
  merged : Bool

/-- The replica's log, marks and configuration are still those the operation
started with. -/
def Untouched (start node : RaftNode M) : Prop :=
  node.log = { start.log with hardState := node.log.hardState } ∧
    node.commitIndex = start.commitIndex ∧ node.lastApplied = start.lastApplied ∧
    node.membership = start.membership

namespace Untouched

variable {start node : RaftNode M}

theorem refl (start : RaftNode M) : Untouched start start := ⟨rfl,rfl,rfl,rfl⟩

section

variable (intact : Untouched start node)
include intact

theorem log : node.log = { start.log with hardState := node.log.hardState } := intact.1

theorem commit : node.commitIndex = start.commitIndex :=
  intact.2.1

theorem applied : node.lastApplied = start.lastApplied :=
  intact.2.2.1

theorem saveHardState (hard : HardState) :
    Untouched start { node with log := { node.log with hardState := hard } } :=
  ⟨by rw [intact.log],intact.2⟩

end

end Untouched

/-- Why a replica stands for election: its timer, an answer to its pre-vote
request, or a hand-over.  Before the first two its term has not moved. -/
def Prompted (action : Action) (start node : RaftNode M) : Prop :=
  node.hard.term = start.hard.term ∧
      ((∃ peer, action = .tick peer ∧
          (node.config.preVote = false ∨ node.membership.isQuorum 1 = true)) ∨
        ∃ peer envelope term granted, action = .deliver peer envelope ∧
          envelope.message = .preVoteResponse term granted) ∨
    ∃ peer envelope term, action = .deliver peer envelope ∧ envelope.message = .timeoutNow term

/-- The messages the code may queue, with what it has established about each. -/
inductive Speakable (action : Action) (start : RaftNode M) (moment : Moment M)
    (recipient : PeerId) : RaftMessage → Prop where
  | preVoteRequest (term lastLogIndex lastLogTerm : Nat) :
      Speakable action start moment recipient (.preVoteRequest term lastLogIndex lastLogTerm)
  | preVoteResponse (term : Nat) (granted : Bool) :
      Speakable action start moment recipient (.preVoteResponse term granted)
  | voteRequest :
      moment.node.role = .candidate →
      recipient ∈ moment.node.membership.voters.elems →
      Speakable action start moment recipient
        (.voteRequest moment.node.hard.term moment.node.log.lastIndex moment.node.log.lastTerm)
  | voteRefused (term : Nat) : Speakable action start moment recipient (.voteResponse term false)
  | voteGranted :
      moment.node.hard.votedFor = some recipient →
      Speakable action start moment recipient (.voteResponse moment.node.hard.term true)
  | appendEntries (prevLogIndex prevLogTerm maxEntries : Nat) (entries : List LogEntry) :
      moment.node.role = .leader →
      moment.node.log.termAt prevLogIndex = some prevLogTerm →
      moment.node.log.entriesFrom (prevLogIndex + 1) maxEntries = .ok entries →
      Speakable action start moment recipient
        (.appendEntries moment.node.hard.term prevLogIndex prevLogTerm entries
          moment.node.commitIndex)
  | appendRefused (term conflictIndex conflictTerm : Nat) :
      Speakable action start moment recipient
        (.appendEntriesResponse term false 0 conflictIndex conflictTerm)
  | appendAccepted (peer : PeerId) (envelope : Envelope) (prevLogIndex prevLogTerm : Nat)
      (entries : List LogEntry) (leaderCommit matchIndex : Nat) :
      action = .deliver peer envelope →
      envelope.message = .appendEntries moment.node.hard.term prevLogIndex prevLogTerm entries
        leaderCommit →
      (matchIndex = moment.node.log.boundary ∨
        moment.merged = true ∧ matchIndex = prevLogIndex + entries.length) →
      Speakable action start moment recipient
        (.appendEntriesResponse moment.node.hard.term true matchIndex 0 0)
  | installSnapshot (snapshot : Snapshot) :
      moment.node.role = .leader →
      moment.node.log.snapshot = some snapshot →
      Speakable action start moment recipient (.installSnapshot moment.node.hard.term snapshot)
  | snapshotCovered (peer : PeerId) (envelope : Envelope) (snapshot : Snapshot) :
      action = .deliver peer envelope →
      envelope.message = .installSnapshot moment.node.hard.term snapshot →
      snapshot.info.lastIndex ≤ moment.node.commitIndex →
      Untouched start moment.node →
      Speakable action start moment recipient
        (.installSnapshotResponse moment.node.hard.term moment.node.log.lastIndex)
  | snapshotInstalled (peer : PeerId) (envelope : Envelope) (snapshot : Snapshot) :
      action = .deliver peer envelope →
      envelope.message = .installSnapshot moment.node.hard.term snapshot →
      moment.node.log.boundary = snapshot.info.lastIndex →
      Speakable action start moment recipient
        (.installSnapshotResponse moment.node.hard.term snapshot.info.lastIndex)

/-- The acknowledged index a leader credits a follower with. -/
inductive Acknowledges (term : Nat) : RaftMessage → Nat → Prop where
  | append (matchIndex conflictIndex conflictTerm : Nat) :
      Acknowledges term (.appendEntriesResponse term true matchIndex conflictIndex conflictTerm)
        matchIndex
  | install (lastIndex : Nat) :
      Acknowledges term (.installSnapshotResponse term lastIndex) lastIndex

/-- The leader's record right after an election. -/
def RaftNode.elected (node : RaftNode M) : RaftNode M :=
  RaftNode.resetProgress
    { node with
      role := .leader
      leader := some node.config.id
      votes := .empty
      electionElapsed := 0
      heartbeatElapsed := 0
      progress := .empty }

/-- The leader's record after one entry of its own term. -/
def RaftNode.appended (node : RaftNode M) (payload : EntryPayload) : RaftNode M :=
  let entry : LogEntry :=
    { term := node.hard.term, index := node.log.lastIndex + 1, payload := payload }
  let inForce :=
    match entry.config with
    | some membership => RaftNode.resetProgress { node with membership := membership }
    | none => node
  { inForce with
    log := { node.log with entries := node.log.entries ++ [entry] }
    progress := inForce.progress.adjust node.config.id fun own =>
      { own with matchIndex := node.log.lastIndex + 1, nextIndex := node.log.lastIndex + 1 + 1 } }

/-- Another voter's record after the leader rebuilt its map: kept, or new. -/
theorem RaftNode.resetProgress_get {node : RaftNode M} {peer : PeerId} {held : Progress}
    (found : node.resetProgress.progress.get peer = some held) (other : peer ≠ node.config.id) :
    node.progress.get peer = some held ∨
      node.progress.get peer = none ∧ held = Progress.new (node.log.lastIndex + 1) node.ticks := by
  unfold RaftNode.resetProgress at found
  simp only [get_adjust,if_neg (Ne.symm other),get_foldl_insert,
    get_empty] at found
  split at found
  · cases known : node.progress.get peer with
    | none =>
      rw [known] at found
      cases found
      exact .inr ⟨rfl,rfl⟩
    | some =>
      rw [known] at found
      cases found
      exact .inl rfl
  · cases found

theorem RaftNode.appended_eq (node : RaftNode M) (payload : EntryPayload) :
    ∃ progress, node.appended payload =
        { node with
          membership :=
            (LogEntry.config { term := node.hard.term, index := node.log.lastIndex + 1,
                               payload := payload }).getD node.membership
          log := { node.log with
            entries := node.log.entries ++
              [{ term := node.hard.term, index := node.log.lastIndex + 1, payload := payload }] }
          progress := progress } ∧
      ∀ peer held, peer ≠ node.config.id → progress.get peer = some held →
        node.progress.get peer = some held ∨
          (∃ membership, payload = .config membership) ∧
            held = Progress.new (node.log.lastIndex + 1) node.ticks := by
  cases payload with
  | command | noop =>
    refine ⟨_,rfl,fun peer held other found => .inl ?_⟩
    rw [get_adjust,if_neg (Ne.symm other)] at found
    exact found
  | config membership =>
    refine ⟨_,rfl,fun peer held other found => ?_⟩
    rw [get_adjust,if_neg (Ne.symm other)] at found
    rcases RaftNode.resetProgress_get found other with kept | ⟨_,fresh⟩
    · exact .inl kept
    · exact .inr ⟨⟨membership,rfl⟩,fresh⟩

/-- The replica after a merge, with the commit index the message allows. -/
def RaftNode.accepted (node : RaftNode M) (prevLogIndex : Nat) (entries : List LogEntry)
    (leaderCommit : Nat) (membership : Membership) (pending : Option Nat) : RaftNode M :=
  { node with
    log := node.log.merged entries
    membership := membership
    pendingConfig := pending
    commitIndex :=
      if node.commitIndex < leaderCommit then min leaderCommit (prevLogIndex + entries.length)
      else node.commitIndex }

def RaftNode.installed (node : RaftNode M) (snapshot : Snapshot) (machine : M) : RaftNode M :=
  { node with
    machine := machine
    log := node.log.installSnapshot snapshot
    commitIndex := snapshot.info.lastIndex
    lastApplied := snapshot.info.lastIndex
    membership := snapshot.info.membership
    pendingConfig := none }

section Steps

variable [StateMachine M]

/-- One step of an operation that began in `start`.  A term changes only before
anything is queued. -/
inductive NodeStep (action : Action) (start : RaftNode M) : Moment M → Moment M → Prop where
  /-- Timers, the known leader, reports to the caller and the pending marker. -/
  | quiet (node : RaftNode M) (merged : Bool) (leader : Option PeerId)
      (electionElapsed heartbeatElapsed randomizedTimeout : Nat) (rng : Rng)
      (applied : List Applied) (pending : Option Nat) :
      NodeStep action start ⟨node,merged⟩
        ⟨{ node with
          leader := leader
          electionElapsed := electionElapsed
          heartbeatElapsed := heartbeatElapsed
          randomizedTimeout := randomizedTimeout
          rng := rng
          applied := applied
          pendingConfig := pending },merged⟩
  | clock (node : RaftNode M) (merged : Bool) :
      NodeStep action start ⟨node,merged⟩ ⟨{ node with ticks := node.ticks + 1 },merged⟩
  | adopt (node : RaftNode M) (merged : Bool) (term : Nat) :
      node.hard.term < term →
      node.outbox = start.outbox →
      NodeStep action start ⟨node,merged⟩
        ⟨{ node.saveHardState term none with
          role := .follower
          progress := .empty
          votes := .empty },merged⟩
  | resign (node : RaftNode M) (merged : Bool) (progress : OrderedMap PeerId Progress) :
      NodeStep action start ⟨node,merged⟩
        ⟨{ node with role := .follower, progress := progress, votes := .empty },merged⟩
  | preStand (node : RaftNode M) (merged : Bool) :
      node.membership.contains node.config.id = true →
      NodeStep action start ⟨node,merged⟩
        ⟨{ node with
          role := .preCandidate
          votes := empty.insert node.config.id true },merged⟩
  | stand (node : RaftNode M) (merged : Bool) :
      node.membership.contains node.config.id = true ∨ node.role = .preCandidate →
      Prompted action start node →
      node.outbox = start.outbox →
      NodeStep action start ⟨node,merged⟩
        ⟨{ node.saveHardState (Term.next node.hard.term) (some node.config.id) with
          role := .candidate
          votes := empty.insert node.config.id true },merged⟩
  | grant (node : RaftNode M) (merged : Bool) (peer : PeerId) (envelope : Envelope)
      (lastLogIndex lastLogTerm : Nat) :
      action = .deliver peer envelope →
      envelope.message = .voteRequest node.hard.term lastLogIndex lastLogTerm →
      (node.hard.canVote || node.hard.hasVotedFor envelope.sender) = true →
      node.isLogUpToDate lastLogIndex lastLogTerm = true →
      NodeStep action start ⟨node,merged⟩
        ⟨node.saveHardState node.hard.term (some envelope.sender),merged⟩
  | tally (node : RaftNode M) (merged : Bool) (peer : PeerId) (envelope : Envelope)
      (granted : Bool) :
      action = .deliver peer envelope →
      (node.role = .candidate ∧ envelope.message = .voteResponse node.hard.term granted ∨
        node.role = .preCandidate) →
      NodeStep action start ⟨node,merged⟩
        ⟨{ node with votes := node.votes.insert envelope.sender granted },merged⟩
  | win (node : RaftNode M) (merged : Bool) :
      node.role = .candidate →
      node.membership.isQuorum (node.votes.values.filter id).length = true →
      NodeStep action start ⟨node,merged⟩ ⟨node.elected,merged⟩
  | append (node : RaftNode M) (merged : Bool) (payload : EntryPayload) :
      node.role = .leader →
      Untouched start node →
      (∀ membership, payload = .config membership → node = start ∧
        ∃ peer change, action = .proposeMembership peer change ∧
          node.membership.apply change = .ok membership) →
      NodeStep action start ⟨node,merged⟩ ⟨node.appended payload,merged⟩
  | speak (node : RaftNode M) (merged : Bool) (recipient : PeerId) (message : RaftMessage) :
      (recipient ≠ node.config.id ∨
        ∃ peer envelope, action = .deliver peer envelope ∧ recipient = envelope.sender) →
      Speakable action start ⟨node,merged⟩ recipient message →
      NodeStep action start ⟨node,merged⟩
        ⟨{ node with
          outbox := node.outbox ++
            [{ sender := node.config.id, recipient := recipient, message := message }] },merged⟩
  /-- Where the leader resumes sending to a follower, and when it last heard of it. -/
  | pace (node : RaftNode M) (merged : Bool) (progress : OrderedMap PeerId Progress) :
      (∀ peer, (progress.get peer).map Progress.matchIndex =
        (node.progress.get peer).map Progress.matchIndex) →
      NodeStep action start ⟨node,merged⟩ ⟨{ node with progress := progress },merged⟩
  | credit (node : RaftNode M) (merged : Bool) (peer : PeerId) (envelope : Envelope)
      (index : Nat) :
      action = .deliver peer envelope →
      Acknowledges node.hard.term envelope.message index →
      NodeStep action start ⟨node,merged⟩
        ⟨{ node with
          progress := node.progress.adjust envelope.sender fun held =>
            held.acknowledge index },merged⟩
  | advance (node : RaftNode M) (merged : Bool) (candidate : Nat) :
      node.role = .leader →
      (node.matched.insertionSort (· ≥ ·))[node.membership.quorum - 1]? = some candidate →
      node.commitIndex < candidate →
      node.log.termAt candidate = some node.hard.term →
      NodeStep action start ⟨node,merged⟩ ⟨{ node with commitIndex := candidate },merged⟩
  | hand (node : RaftNode M) (merged : Bool) (entry : LogEntry) :
      node.lastApplied < node.commitIndex →
      node.log.entry (node.lastApplied + 1) = some entry →
      NodeStep action start ⟨node,merged⟩
        ⟨{ node with handed := node.handed ++ [(node.lastApplied + 1,entry)] },merged⟩
  /-- The state machine's own change, successful or not. -/
  | drive (node : RaftNode M) (merged : Bool) (command : Bytes) (reason : String) :
      (StateMachine.apply node.machine (node.lastApplied + 1) command).2 = .error reason →
      NodeStep action start ⟨node,merged⟩
        ⟨{ node with
          machine := (StateMachine.apply node.machine (node.lastApplied + 1) command).1 },merged⟩
  | apply (node : RaftNode M) (merged : Bool) (machine : M) :
      node.lastApplied < node.commitIndex →
      (∀ entry, node.log.entry (node.lastApplied + 1) = some entry →
        (node.lastApplied + 1,entry) ∈ node.handed) →
      (machine = node.machine ∨ ∃ command reply,
        StateMachine.apply node.machine (node.lastApplied + 1) command = (machine,.ok reply)) →
      NodeStep action start ⟨node,merged⟩
        ⟨{ node with machine := machine, lastApplied := node.lastApplied + 1 },merged⟩
  | capture (node : RaftNode M) (merged : Bool) (lastTerm : Nat) (data : Bytes) (log : MemoryLog) :
      node.lastApplied ≠ 0 →
      node.log.termAt node.lastApplied = some lastTerm →
      StateMachine.snapshot node.machine = .ok data →
      (node.config.snapshotThreshold ≠ 0 ∧
          node.config.snapshotThreshold ≤ node.lastApplied - node.log.firstIndex ∨
        ∃ peer, action = .takeSnapshot peer) →
      node.log.saveSnapshot
        { info :=
            { lastIndex := node.lastApplied, lastTerm := lastTerm, membership := node.membership }
          data := data } = .ok log →
      NodeStep action start ⟨node,merged⟩
        ⟨{ node with
          log := log
          taken := node.taken ++
            [{ snapshot :=
                { info :=
                    { lastIndex := node.lastApplied
                      lastTerm := lastTerm
                      membership := node.membership }
                  data := data }
               log := node.log }] },merged⟩
  | accept (node : RaftNode M) (peer : PeerId) (envelope : Envelope)
      (prevLogIndex prevLogTerm : Nat) (entries : List LogEntry) (leaderCommit : Nat)
      (membership : Membership) (pending : Option Nat) :
      action = .deliver peer envelope →
      envelope.message = .appendEntries node.hard.term prevLogIndex prevLogTerm entries
        leaderCommit →
      node.role = .follower ∨ node.role = .leader →
      Untouched start node →
      node.log.boundary ≤ prevLogIndex →
      prevLogIndex ≤ node.log.lastIndex →
      (node.log.termAt prevLogIndex).getD 0 = prevLogTerm →
      membership = (if (mergePoint node.log entries).2 ||
          (entries.drop (mergePoint node.log entries).1).any LogEntry.isConfig then
        Membership.fromEntries node.baseMembership (node.log.merged entries).entries
      else node.membership) →
      NodeStep action start ⟨node,false⟩
        ⟨node.accepted prevLogIndex entries leaderCommit membership pending,true⟩
  | install (node : RaftNode M) (merged : Bool) (peer : PeerId) (envelope : Envelope)
      (snapshot : Snapshot) (machine : M) :
      action = .deliver peer envelope →
      envelope.message = .installSnapshot node.hard.term snapshot →
      node.role = .follower ∨ node.role = .leader →
      Untouched start node →
      node.commitIndex < snapshot.info.lastIndex →
      StateMachine.restore node.machine snapshot.data = (machine,.ok ()) →
      NodeStep action start ⟨node,merged⟩ ⟨node.installed snapshot machine,merged⟩
  | spoil (node : RaftNode M) (merged : Bool) (data : Bytes) (reason : String) :
      (StateMachine.restore node.machine data).2 = .error reason →
      NodeStep action start ⟨node,merged⟩
        ⟨{ node with machine := (StateMachine.restore node.machine data).1 },merged⟩

/-- Any number of steps of one operation. -/
def NodeSteps (action : Action) (start : RaftNode M) : Moment M → Moment M → Prop :=
  Relation.ReflTransGen (NodeStep action start)

end Steps

end Astrs.Raft
