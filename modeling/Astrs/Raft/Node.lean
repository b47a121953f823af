/-
One Raft replica as a state machine over its own record.

An operation that stops with an error keeps the updates made so far, as in the source.
Two queues are history only: `handed` lists the entries given to the state machine,
`taken` the snapshots captured, each with the log it was captured from.
-/

import Astrs.Base.Effect
import Astrs.Raft.Machine
import Astrs.Raft.Store
import Mathlib.Data.List.Sort

namespace Astrs.Raft

open Astrs.Base StateMachine

/-- What a leader knows about one follower's log. -/
structure Progress where
  nextIndex : Nat
  matchIndex : Nat
  lastContact : Nat
  snapshotInFlight : Bool
  deriving DecidableEq, Repr

def Progress.new (nextIndex now : Nat) : Progress :=
  { nextIndex := nextIndex, matchIndex := 0, lastContact := now, snapshotInFlight := false }

structure Applied where
  index : Nat
  term : Nat
  result : Option Bytes
  deriving DecidableEq

structure Capture where
  snapshot : Snapshot
  log : MemoryLog

structure RaftNode (M : Type) where
  config : RaftConfig
  role : Role
  hard : HardState
  leader : Option PeerId
  log : MemoryLog
  machine : M
  commitIndex : Nat
  lastApplied : Nat
  membership : Membership
  progress : OrderedMap PeerId Progress
  votes : OrderedMap PeerId Bool
  electionElapsed : Nat
  heartbeatElapsed : Nat
  randomizedTimeout : Nat
  rng : Rng
  outbox : List Envelope
  applied : List Applied
  pendingConfig : Option Nat
  ticks : Nat
  handed : List (Nat × LogEntry)
  taken : List Capture

abbrev NodeM (M : Type) := EStateM RaftError (RaftNode M)

variable {M : Type}

/-- Lifts a log-store answer, an error stopping the operation. -/
def liftLog {α : Type} : Except RaftError α → NodeM M α
  | .ok value => pure value
  | .error failure => throw failure

def updateLog (change : MemoryLog → Except RaftError MemoryLog) : NodeM M Unit := do
  let node ← get
  let log ← liftLog (change node.log)
  modify fun node => { node with log := log }

def send (peer : PeerId) (message : RaftMessage) : NodeM M Unit := modify fun node =>
    { node with
      outbox := node.outbox ++
        [{ sender := node.config.id, recipient := peer, message := message }] }

variable (node : RaftNode M)

def RaftNode.otherVoters : List PeerId :=
  node.membership.voters.elems.filter (fun peer => decide (peer ≠ node.config.id))

def RaftNode.saveHardState (node : RaftNode M) (term : Nat) (votedFor : Option PeerId) :
    RaftNode M :=
  let state : HardState := { term := term, votedFor := votedFor }
  if state = node.hard then node
  else { node with log := node.log.saveHardState state, hard := state }

def saveHardState (term : Nat) (votedFor : Option PeerId) : NodeM M Unit :=
  modify fun node => node.saveHardState term votedFor

def RaftNode.resetElectionTimer : RaftNode M :=
  let draw := node.rng.inRange 0 (node.config.electionJitterTicks + 1)
  { node with
    electionElapsed := 0
    randomizedTimeout := node.config.electionTimeoutTicks + draw.1
    rng := draw.2 }

/-- Steps down, or stays, as a follower in `term`. -/
def becomeFollower (term : Nat) (leader : Option PeerId) : NodeM M Unit := do
  let node ← get
  if term ≠ node.hard.term then saveHardState term none
  modify fun node =>
    RaftNode.resetElectionTimer
      { node with
        role := .follower
        leader := leader
        progress := .empty
        votes := .empty }

/-- The configuration below the held entries: the snapshot's, or the bootstrap set. -/
def RaftNode.baseMembership : Membership :=
  match node.log.snapshotMeta with
  | some info => info.membership
  | none => node.config.initialMembership

def recomputeMembership : NodeM M Unit := do
  let node ← get
  let base := node.baseMembership
  let first := node.log.firstIndex
  let held ← liftLog (node.log.entriesFrom first (node.log.lastIndex - first + 1))
  modify fun node =>
    { node with
      membership := Membership.fromEntries base held
      pendingConfig := ((held.reverse.find? LogEntry.isConfig).map LogEntry.index).filter
          (fun index => decide (node.commitIndex < index)) }

def RaftNode.hasQuorumContact (within : Nat) : Bool :=
  let cutoff := node.ticks - within
  let fresh := node.membership.voters.elems.countP fun voter =>
    if voter = node.config.id then true
    else
      match node.progress.get voter with
      | some progress => decide (cutoff ≤ progress.lastContact)
      | none => false
  node.membership.isQuorum fresh

def RaftNode.isReady : Bool :=
  node.role.isLeader && decide (node.log.termAt node.commitIndex = some node.hard.term)

def noteContact (peer : PeerId) : NodeM M Unit := modify fun node =>
    { node with
      progress := node.progress.adjust peer fun progress =>
        { progress with lastContact := node.ticks } }

/-- Rebuilds the progress map for the configuration in force, keeping what is
known about peers that remain. -/
def RaftNode.resetProgress : RaftNode M :=
  let nextIndex := node.log.lastIndex + 1
  let rebuilt := node.membership.voters.elems.foldl (fun rebuilt voter =>
      rebuilt.insert voter ((node.progress.get voter).getD (Progress.new nextIndex node.ticks)))
    OrderedMap.empty
  { node with
    progress := rebuilt.adjust node.config.id fun own =>
      { own with
        matchIndex := node.log.lastIndex
        nextIndex := nextIndex
        lastContact := node.ticks } }

section Machine

variable [StateMachine M]

def takeSnapshot : NodeM M Unit := do
  let node ← get
  let lastIndex := node.lastApplied
  if lastIndex = 0 then pure ()
  else
    match node.log.termAt lastIndex with
    | none => pure ()
    | some lastTerm =>
      match snapshot node.machine with
      | .error reason => throw (.snapshot "capture" reason)
      | .ok data => do
        let snapshot : Snapshot :=
          { info :=
              { lastIndex := lastIndex, lastTerm := lastTerm, membership := node.membership }
            data := data }
        modify fun node =>
          { node with taken := node.taken ++ [{ snapshot := snapshot, log := node.log }] }
        updateLog fun log => log.saveSnapshot snapshot

def maybeCompact : NodeM M Unit := do
  let node ← get
  if node.config.snapshotThreshold = 0 ∨ node.lastApplied = 0 then pure ()
  else if node.lastApplied - node.log.firstIndex < node.config.snapshotThreshold then pure ()
  else takeSnapshot

def applyEntry (index : Nat) : NodeM M Unit := do
  let node ← get
  match node.log.entry index with
  | none => modify fun node => { node with lastApplied := index }
  | some entry => do
    modify fun node => { node with handed := node.handed ++ [(index,entry)] }
    let result ← match entry.payload with
      | .command command => do
        let outcome := apply node.machine index command
        modify fun node => { node with machine := outcome.1 }
        match outcome.2 with
        | .ok reply => pure (some reply)
        | .error reason => throw (.apply index reason)
      | .noop => pure none
      | .config _ => pure none
    modify fun node =>
      { node with
        lastApplied := index
        applied := node.applied ++ [{ index := index, term := entry.term, result := result }] }

/-- The apply loop: every round moves `lastApplied` up by one, so the loop runs
as many rounds as the commit index lies ahead. -/
def applyRounds : Nat → NodeM M Unit
  | 0 => pure ()
  | rounds + 1 => do
    let node ← get
    applyEntry (node.lastApplied + 1)
    applyRounds rounds

def applyCommitted : NodeM M Unit := do
  let node ← get
  applyRounds (node.commitIndex - node.lastApplied)
  maybeCompact

/-! ### Replication, leader side -/

def sendSnapshot (peer : PeerId) : NodeM M Unit := do
  let node ← get
  match node.log.snapshot with
  | none =>
    modify fun node =>
      { node with
        progress := node.progress.adjust peer fun progress =>
          { progress with nextIndex := node.log.firstIndex } }
  | some snapshot => do
    modify fun node =>
      { node with
        progress := node.progress.adjust peer fun progress =>
          { progress with
            snapshotInFlight := true
            nextIndex := snapshot.info.lastIndex + 1 } }
    send peer (.installSnapshot node.hard.term snapshot)

/-- Sends one follower the entries after its next index, or a snapshot when
those entries have been compacted away. -/
def sendAppend (peer : PeerId) : NodeM M Unit := do
  let node ← get
  match node.progress.get peer with
  | none => pure ()
  | some progress =>
    if progress.nextIndex < node.log.firstIndex then sendSnapshot peer
    else
      let prevLogIndex := progress.nextIndex - 1
      match node.log.termAt prevLogIndex with
      | none => sendSnapshot peer
      | some prevLogTerm => do
        let entries ← liftLog
          (node.log.entriesFrom progress.nextIndex node.config.maxEntriesPerAppend)
        send peer (.appendEntries node.hard.term prevLogIndex prevLogTerm entries node.commitIndex)

def broadcastAppend : NodeM M Unit := do
  let node ← get
  node.otherVoters.forM sendAppend

/-- The index a voter is known to hold, the leader's own being its last. -/
def RaftNode.matchOf (node : RaftNode M) (voter : PeerId) : Nat :=
  if voter = node.config.id then node.log.lastIndex
  else
    match node.progress.get voter with
    | some progress => progress.matchIndex
    | none => 0

def RaftNode.matched (node : RaftNode M) : List Nat := node.membership.voters.elems.map node.matchOf

/-- Advances the commit index to the highest entry of this leader's term that a
majority holds. -/
def maybeAdvanceCommit : NodeM M Unit := modify fun node =>
    if node.role ≠ .leader then node
    else
      match (node.matched.insertionSort (· ≥ ·))[node.membership.quorum - 1]? with
      | none => node
      | some candidate =>
        if candidate ≤ node.commitIndex then node
        else if node.log.termAt candidate ≠ some node.hard.term then node
        else
          { node with
            commitIndex := candidate
            pendingConfig := node.pendingConfig.filter (fun pending => decide (candidate < pending)) }

/-- Appends one entry of this leader's own term and starts replicating it. -/
def appendLocal (payload : EntryPayload) : NodeM M Nat := do
  let node ← get
  if node.role ≠ .leader then throw (.notLeader node.leader)
  else do
    let index := node.log.lastIndex + 1
    let entry : LogEntry := { term := node.hard.term, index := index, payload := payload }
    match entry.config with
    | some membership =>
      modify fun node => RaftNode.resetProgress { node with membership := membership }
    | none => pure ()
    updateLog fun log => log.append [entry]
    modify fun node =>
      { node with
        progress := node.progress.adjust node.config.id fun own =>
          { own with matchIndex := index, nextIndex := index + 1 } }
    broadcastAppend
    maybeAdvanceCommit
    applyCommitted
    pure index

def propose (command : Bytes) : NodeM M Nat := appendLocal (.command command)

def proposeMembership (change : MembershipChange) : NodeM M Nat := do
  let node ← get
  if node.role ≠ .leader then throw (.notLeader node.leader)
  else
    match node.pendingConfig.filter (fun pending => decide (node.commitIndex < pending)) with
    | some pending => throw (.configChangeInFlight pending)
    | none => do
      let next ← liftLog (node.membership.apply change)
      let index ← appendLocal (.config next)
      modify fun node => { node with pendingConfig := some index }
      pure index

/-- Takes office: initializes replication state and appends the no-op. -/
def becomeLeader : NodeM M Unit := do
  modify fun node =>
    RaftNode.resetProgress
      { node with
        role := .leader
        leader := some node.config.id
        votes := .empty
        electionElapsed := 0
        heartbeatElapsed := 0
        progress := .empty }
  discard (appendLocal .noop)

/-- Stands for election: bumps the term, votes for itself, asks everyone else. -/
def campaign : NodeM M Unit := do
  let node ← get
  let term := Term.next node.hard.term
  saveHardState term (some node.config.id)
  modify fun node =>
    RaftNode.resetElectionTimer
      { node with
        role := .candidate
        leader := none
        votes := OrderedMap.empty.insert node.config.id true }
  let node ← get
  if node.membership.isQuorum 1 then becomeLeader
  else
    node.otherVoters.forM fun peer =>
      send peer (.voteRequest term node.log.lastIndex node.log.lastTerm)

/-- Asks whether a real campaign would win, without touching the term. -/
def campaignPreVote : NodeM M Unit := do
  modify fun node =>
    RaftNode.resetElectionTimer
      { node with
        role := .preCandidate
        leader := none
        votes := OrderedMap.empty.insert node.config.id true }
  let node ← get
  if node.membership.isQuorum 1 then campaign
  else
    node.otherVoters.forM fun peer =>
      send peer (.preVoteRequest (Term.next node.hard.term) node.log.lastIndex node.log.lastTerm)

/-- Term first, index only as a tie-break. -/
def RaftNode.isLogUpToDate (node : RaftNode M) (index term : Nat) : Bool :=
  if term ≠ node.log.lastTerm then decide (node.log.lastTerm < term)
  else decide (node.log.lastIndex ≤ index)

variable (sender : PeerId)

def handleVoteRequest (preVote : Bool) (term lastLogIndex lastLogTerm : Nat) : NodeM M Unit := do
  let node ← get
  let upToDate := node.isLogUpToDate lastLogIndex lastLogTerm
  let leaderIsGone :=
    node.leader.isNone || decide (node.config.electionTimeoutTicks ≤ node.electionElapsed)
  let voteAvailable := node.hard.canVote || node.hard.hasVotedFor sender
  let granted :=
    if preVote then decide (node.hard.term < term) && upToDate && leaderIsGone
    else voteAvailable && upToDate
  if granted && !preVote then
    saveHardState node.hard.term (some sender)
    modify RaftNode.resetElectionTimer
  let node ← get
  send sender (if preVote then .preVoteResponse node.hard.term granted
    else .voteResponse node.hard.term granted)

def handleVoteResponse (preVote granted : Bool) : NodeM M Unit := do
  let node ← get
  let expected : Role := if preVote then .preCandidate else .candidate
  if node.role ≠ expected then pure ()
  else do
    modify fun node => { node with votes := node.votes.insert sender granted }
    let node ← get
    let forVotes := (node.votes.values.filter id).length
    let against := node.votes.len - forVotes
    if node.membership.isQuorum forVotes then
      if preVote then campaign else becomeLeader
    else if node.membership.isQuorum against then
      modify fun node =>
        RaftNode.resetElectionTimer { node with role := .follower, votes := .empty }
    else pure ()

/-! ### Replication, follower side -/

/-- How many leading entries the log already holds with the same term, and
whether the first one past them conflicts with a held entry. -/
def mergePoint (log : MemoryLog) : List LogEntry → Nat × Bool
  | [] => (0,false)
  | entry :: rest =>
    match log.termAt entry.index with
    | some existing =>
      if existing = entry.term then
        let point := mergePoint log rest
        (point.1 + 1,point.2)
      else (0,true)
    | none => (0,false)

/-- Appends `entries`, truncating first at the first index whose term disagrees. -/
def mergeEntries (entries : List LogEntry) : NodeM M Unit := do
  let node ← get
  let point := mergePoint node.log entries
  let appended := entries.drop point.1
  if point.2 then
    match appended with
    | [] => pure ()
    | entry :: _ => updateLog fun log => log.truncateFrom entry.index
  if appended ≠ [] then
    updateLog fun log => log.append appended
  if point.2 || appended.any LogEntry.isConfig then recomputeMembership

def firstIndexOfTerm (log : MemoryLog) (term : Nat) : Nat → Nat
  | 0 => 0
  | index + 1 =>
    if log.firstIndex < index + 1 then
      match log.termAt index with
      | some found => if found = term then firstIndexOfTerm log term index else index + 1
      | none => index + 1
    else index + 1

def lastIndexOfTerm (log : MemoryLog) (term : Nat) : Nat → Option Nat
  | 0 => none
  | index + 1 =>
    if log.firstIndex ≤ index + 1 then
      match log.termAt (index + 1) with
      | some found =>
        if found = term then some (index + 1)
        else if found < term then none
        else lastIndexOfTerm log term index
      | none => lastIndexOfTerm log term index
    else none

def sendRejection (conflictIndex conflictTerm : Nat) : NodeM M Unit := do
  let node ← get
  send sender (.appendEntriesResponse node.hard.term false 0 conflictIndex conflictTerm)

def sendAcceptance (matchIndex : Nat) : NodeM M Unit := do
  let node ← get
  send sender (.appendEntriesResponse node.hard.term true matchIndex 0 0)

/-- What both kinds of leader message do first: a campaigning replica stands
down, the sender becomes the known leader and the election timer restarts. -/
def followLeader (term : Nat) : NodeM M Unit := do
  let node ← get
  if node.role.isCampaigning then becomeFollower term (some sender)
  modify fun node => RaftNode.resetElectionTimer { node with leader := some sender }

def acceptEntries (prevLogIndex : Nat) (entries : List LogEntry) (leaderCommit : Nat) :
    NodeM M Unit := do
  mergeEntries entries
  let lastNew := prevLogIndex + entries.length
  let node ← get
  if node.commitIndex < leaderCommit then
    modify fun node => { node with commitIndex := min leaderCommit lastNew }
    applyCommitted
  sendAcceptance sender lastNew

def handleAppendEntries (term prevLogIndex prevLogTerm : Nat) (entries : List LogEntry)
    (leaderCommit : Nat) : NodeM M Unit := do
  followLeader sender term
  let node ← get
  let boundary := node.log.firstIndex - 1
  if prevLogIndex < boundary then sendAcceptance sender boundary
  else if node.log.lastIndex < prevLogIndex then sendRejection sender (node.log.lastIndex + 1) 0
  else
    let heldTerm := (node.log.termAt prevLogIndex).getD 0
    if heldTerm ≠ prevLogTerm then
      sendRejection sender (firstIndexOfTerm node.log heldTerm prevLogIndex) heldTerm
    else acceptEntries sender prevLogIndex entries leaderCommit

/-- Accepts a leader's snapshot, replacing this replica's log and state machine. -/
def handleInstallSnapshot (snapshot : Snapshot) : NodeM M Unit := do
  let node ← get
  followLeader sender node.hard.term
  let node ← get
  let lastIndex := snapshot.info.lastIndex
  if lastIndex ≤ node.commitIndex then
    send sender (.installSnapshotResponse node.hard.term node.log.lastIndex)
  else do
    let outcome := restore node.machine snapshot.data
    modify fun node => { node with machine := outcome.1 }
    match outcome.2 with
    | .error reason => throw (.snapshot "restore" reason)
    | .ok () => do
      modify fun node =>
        { node with
          log := node.log.installSnapshot snapshot
          commitIndex := lastIndex
          lastApplied := lastIndex
          membership := snapshot.info.membership
          pendingConfig := none }
      send sender (.installSnapshotResponse node.hard.term lastIndex)

/-- The leader's view of a follower after an acknowledgement up to `matchIndex`. -/
def Progress.acknowledge (progress : Progress) (matchIndex : Nat) : Progress :=
  let best := if progress.matchIndex < matchIndex then matchIndex else progress.matchIndex
  { progress with matchIndex := best, nextIndex := best + 1, snapshotInFlight := false }

def handleAppendResponse (term : Nat) (success : Bool) (matchIndex conflictIndex conflictTerm : Nat) :
    NodeM M Unit := do
  let node ← get
  if node.role ≠ .leader ∨ term ≠ node.hard.term then pure ()
  else do
    noteContact sender
    let node ← get
    if success then
      match node.progress.get sender with
      | none => pure ()
      | some progress => do
        let acknowledged := progress.acknowledge matchIndex
        modify fun node => { node with progress := node.progress.insert sender acknowledged }
        maybeAdvanceCommit
        applyCommitted
        if acknowledged.nextIndex ≤ node.log.lastIndex then sendAppend sender
    else
      let next :=
        if conflictTerm ≠ 0 then
          match lastIndexOfTerm node.log conflictTerm node.log.lastIndex with
          | some lastOfTerm => lastOfTerm + 1
          | none => conflictIndex
        else conflictIndex
      match node.progress.get sender with
      | none => pure ()
      | some progress => do
        modify fun node =>
          { node with
            progress := node.progress.insert sender
              { progress with nextIndex := max (max next (progress.matchIndex + 1)) 1 } }
        sendAppend sender

def handleInstallSnapshotResponse (term lastIndex : Nat) : NodeM M Unit := do
  let node ← get
  if node.role ≠ .leader ∨ term ≠ node.hard.term then pure ()
  else do
    noteContact sender
    modify fun node =>
      { node with
        progress := node.progress.adjust sender fun progress => progress.acknowledge lastIndex }
    maybeAdvanceCommit
    applyCommitted
    sendAppend sender

/-- A leader's tick: heartbeats, and a step-down if quorum contact is lost. -/
def tickLeader : NodeM M Unit := do
  modify fun node => { node with heartbeatElapsed := node.heartbeatElapsed + 1 }
  let node ← get
  if node.config.heartbeatTicks ≤ node.heartbeatElapsed then
    modify fun node => { node with heartbeatElapsed := 0 }
    broadcastAppend
  modify fun node => { node with electionElapsed := node.electionElapsed + 1 }
  let node ← get
  if node.config.electionTimeoutTicks ≤ node.electionElapsed ∧
      node.hasQuorumContact node.config.electionTimeoutTicks = false then
    becomeFollower node.hard.term none

def tickFollower : NodeM M Unit := do
  modify fun node => { node with electionElapsed := node.electionElapsed + 1 }
  let node ← get
  if node.electionElapsed < node.randomizedTimeout then pure ()
  else if !node.membership.contains node.config.id then
    modify fun node => { node with electionElapsed := 0 }
  else if node.config.preVote then campaignPreVote
  else campaign

def tick : NodeM M Unit := do
  modify fun node => { node with ticks := node.ticks + 1 }
  let node ← get
  if node.role.isLeader then tickLeader else tickFollower

def handleHigherTerm (message : RaftMessage) : NodeM M Unit :=
  match message with
  | .preVoteRequest .. => pure ()
  | .preVoteResponse _ true => pure ()
  | .appendEntries term .. => becomeFollower term (some sender)
  | .installSnapshot term _ => becomeFollower term (some sender)
  | .timeoutNow term => becomeFollower term (some sender)
  | message => becomeFollower message.term none

/-- Answers, or drops, a message from an older term. -/
def rejectStale (message : RaftMessage) : NodeM M Unit := do
  let node ← get
  match message with
  | .preVoteRequest .. => send sender (.preVoteResponse node.hard.term false)
  | .voteRequest .. => send sender (.voteResponse node.hard.term false)
  | .appendEntries .. => sendRejection sender 0 0
  | .installSnapshot .. => sendRejection sender 0 0
  | _ => pure ()

def handleTimeoutNow : NodeM M Unit := do
  let node ← get
  if node.membership.contains node.config.id then campaign

def dispatch : RaftMessage → NodeM M Unit
  | .preVoteRequest term lastLogIndex lastLogTerm =>
    handleVoteRequest sender true term lastLogIndex lastLogTerm
  | .voteRequest term lastLogIndex lastLogTerm =>
    handleVoteRequest sender false term lastLogIndex lastLogTerm
  | .preVoteResponse _ granted => handleVoteResponse sender true granted
  | .voteResponse _ granted => handleVoteResponse sender false granted
  | .appendEntries term prevLogIndex prevLogTerm entries leaderCommit =>
    handleAppendEntries sender term prevLogIndex prevLogTerm entries leaderCommit
  | .appendEntriesResponse term success matchIndex conflictIndex conflictTerm =>
    handleAppendResponse sender term success matchIndex conflictIndex conflictTerm
  | .installSnapshot _ snapshot => handleInstallSnapshot sender snapshot
  | .installSnapshotResponse term lastIndex => handleInstallSnapshotResponse sender term lastIndex
  | .timeoutNow _ => handleTimeoutNow

def step (envelope : Envelope) : NodeM M Unit := do
  let node ← get
  if envelope.recipient ≠ node.config.id then pure ()
  else if node.hard.term < envelope.message.term then do
    handleHigherTerm envelope.sender envelope.message
    dispatch envelope.sender envelope.message
  else if envelope.message.term < node.hard.term then
    rejectStale envelope.sender envelope.message
  else dispatch envelope.sender envelope.message

/-- Builds a replica over a log and a machine, recovering what the log holds. -/
def RaftNode.new (config : RaftConfig) (log : MemoryLog) (machine : M) :
    Except RaftError (RaftNode M) := do
  config.validate
  let draw := (Rng.new config.seed).inRange 0 (config.electionJitterTicks + 1)
  let fresh : RaftNode M :=
    { config := config
      role := .follower
      hard := log.hardState
      leader := none
      log := log
      machine := machine
      commitIndex := 0
      lastApplied := 0
      membership := config.initialMembership
      progress := .empty
      votes := .empty
      electionElapsed := 0
      heartbeatElapsed := 0
      randomizedTimeout := config.electionTimeoutTicks + draw.1
      rng := draw.2
      outbox := []
      applied := []
      pendingConfig := none
      ticks := 0
      handed := []
      taken := [] }
  let restored ← match log.snapshot with
    | none => pure fresh
    | some snapshot =>
      let outcome := restore machine snapshot.data
      match outcome.2 with
      | .error reason => throw (.snapshot "restore" reason)
      | .ok () =>
        pure
          { fresh with
            machine := outcome.1
            commitIndex := snapshot.info.lastIndex
            lastApplied := snapshot.info.lastIndex
            membership := snapshot.info.membership }
  let durablyApplied := appliedIndex restored.machine
  let resumed :=
    if restored.lastApplied < durablyApplied then
      { restored with
        lastApplied := durablyApplied
        commitIndex := max restored.commitIndex durablyApplied }
    else restored
  match recomputeMembership resumed with
  | .ok _ node => pure node
  | .error failure _ => throw failure

def RaftNode.intoParts (node : RaftNode M) : MemoryLog × M := (node.log,node.machine)

end Machine

end Astrs.Raft
