/-
The scalars, records and messages of one Raft replica.

Terms saturate at the top of a 64-bit counter.  Log indices and tick counters are natural
numbers: a replica reaches the top of theirs after 2^64 appends or ticks, and where the log
store is called with any index the results keep below it.
-/

import Astrs.Base.Ordered

namespace Astrs.Raft

open Astrs.Base

abbrev Bytes := List UInt8

def u64Max : Nat := 18446744073709551615

def Term.next (term : Nat) : Nat := min (term + 1) u64Max

theorem Term.next_eq {term : Nat} (below : term < u64Max) : Term.next term = term + 1 := by
  exact Nat.min_eq_left below

abbrev PeerId := Nat

inductive Role where
  | follower
  | preCandidate
  | candidate
  | leader
  deriving DecidableEq, Repr

def Role.isLeader : Role → Bool
  | .leader => true
  | _ => false

def Role.isCampaigning : Role → Bool
  | .preCandidate | .candidate => true
  | _ => false

/-- The state of the `xorshift64*` generator. -/
structure Rng where
  state : UInt64
  deriving DecidableEq, Repr

def Rng.new (seed : UInt64) : Rng :=
  { state := if seed = 0 then 0x9E3779B97F4A7C15 else seed }

def Rng.nextU64 (rng : Rng) : UInt64 × Rng :=
  let first := rng.state ^^^ (rng.state >>> 12)
  let second := first ^^^ (first <<< 25)
  let third := second ^^^ (second >>> 27)
  (third * 0x2545F4914F6CDD1D,{ state := third })

def Rng.inRange (rng : Rng) (low high : Nat) : Nat × Rng :=
  if high ≤ low then (low,rng)
  else
    let (value,next) := rng.nextU64
    (low + value.toNat % (high - low),next)

inductive RaftError where
  | notLeader (leader : Option PeerId)
  | configChangeInFlight (pending : Nat)
  | invalidMembership (reason : String)
  | compacted (index first : Nat)
  | unavailable (index last : Nat)
  | invalidConfig (reason : String)
  | corrupt (offset : Nat) (reason : String)
  | codec (reason : String)
  | unsupportedVersion (found supported : Nat)
  | apply (index : Nat) (reason : String)
  | snapshot (what reason : String)
  deriving DecidableEq, Repr

structure Membership where
  voters : OrderedSet PeerId
  deriving DecidableEq

inductive MembershipChange where
  | add (peer : PeerId)
  | remove (peer : PeerId)
  deriving DecidableEq, Repr

namespace Membership

def new (voters : List PeerId) : Membership := ⟨OrderedSet.ofList voters⟩

def contains (membership : Membership) (peer : PeerId) : Bool := membership.voters.contains peer

def quorum (membership : Membership) : Nat := membership.voters.len / 2 + 1

def isQuorum (membership : Membership) (votes : Nat) : Bool :=
  !membership.voters.isEmpty && decide (membership.quorum ≤ votes)

def apply (membership : Membership) : MembershipChange → Except RaftError Membership
  | .add peer =>
    if membership.voters.contains peer then
      .error (.invalidMembership "that peer is already a voter")
    else .ok ⟨membership.voters.insert peer⟩
  | .remove peer =>
    if membership.voters.contains peer then
      if (membership.voters.remove peer).isEmpty then
        .error (.invalidMembership "removing the last voter would leave no cluster")
      else .ok ⟨membership.voters.remove peer⟩
    else .error (.invalidMembership "that peer is not a voter")

end Membership

inductive EntryPayload where
  | command (bytes : Bytes)
  | noop
  | config (membership : Membership)
  deriving DecidableEq

structure LogEntry where
  term : Nat
  index : Nat
  payload : EntryPayload
  deriving DecidableEq

def LogEntry.config (entry : LogEntry) : Option Membership :=
  match entry.payload with
  | .config membership => some membership
  | _ => none

def LogEntry.isConfig (entry : LogEntry) : Bool := entry.config.isSome

def Membership.fromEntries (base : Membership) (entries : List LogEntry) : Membership :=
  entries.foldl (fun current entry => (entry.config).getD current) base

structure HardState where
  term : Nat
  votedFor : Option PeerId
  deriving DecidableEq

def HardState.initial : HardState := { term := 0, votedFor := none }

def HardState.hasVotedFor (state : HardState) (candidate : PeerId) : Bool :=
  decide (state.votedFor = some candidate)

def HardState.canVote (state : HardState) : Bool := state.votedFor.isNone

structure SnapshotMeta where
  lastIndex : Nat
  lastTerm : Nat
  membership : Membership
  deriving DecidableEq

structure Snapshot where
  info : SnapshotMeta
  data : Bytes
  deriving DecidableEq

inductive RaftMessage where
  | preVoteRequest (term : Nat) (lastLogIndex : Nat) (lastLogTerm : Nat)
  | preVoteResponse (term : Nat) (granted : Bool)
  | voteRequest (term : Nat) (lastLogIndex : Nat) (lastLogTerm : Nat)
  | voteResponse (term : Nat) (granted : Bool)
  | appendEntries (term : Nat) (prevLogIndex : Nat) (prevLogTerm : Nat)
      (entries : List LogEntry) (leaderCommit : Nat)
  | appendEntriesResponse (term : Nat) (success : Bool) (matchIndex conflictIndex : Nat)
      (conflictTerm : Nat)
  | installSnapshot (term : Nat) (snapshot : Snapshot)
  | installSnapshotResponse (term : Nat) (lastIndex : Nat)
  | timeoutNow (term : Nat)
  deriving DecidableEq

def RaftMessage.term : RaftMessage → Nat
  | .preVoteRequest term _ _ => term
  | .preVoteResponse term _ => term
  | .voteRequest term _ _ => term
  | .voteResponse term _ => term
  | .appendEntries term _ _ _ _ => term
  | .appendEntriesResponse term _ _ _ _ => term
  | .installSnapshot term _ => term
  | .installSnapshotResponse term _ => term
  | .timeoutNow term => term

structure Envelope where
  sender : PeerId
  recipient : PeerId
  message : RaftMessage
  deriving DecidableEq

/-- A replica's identity, peers and timing.  Of the peer map only the ids are
kept: the consensus code never reads an address. -/
structure RaftConfig where
  id : PeerId
  peers : OrderedSet PeerId
  electionTimeoutTicks : Nat
  electionJitterTicks : Nat
  heartbeatTicks : Nat
  tickInterval : Nat
  maxEntriesPerAppend : Nat
  snapshotThreshold : Nat
  preVote : Bool
  seed : UInt64

namespace RaftConfig

def initialMembership (config : RaftConfig) : Membership := ⟨config.peers⟩

def validate (config : RaftConfig) : Except RaftError Unit :=
  if config.peers.isEmpty then
    .error (.invalidConfig "a Raft replica needs at least one peer, itself included")
  else if !config.peers.contains config.id then
    .error (.invalidConfig "this replica's own id must appear in its peer set")
  else if config.electionTimeoutTicks = 0 then
    .error (.invalidConfig "the election timeout must be at least one tick")
  else if config.heartbeatTicks = 0 then
    .error (.invalidConfig "the heartbeat interval must be at least one tick")
  else if config.electionTimeoutTicks ≤ config.heartbeatTicks then
    .error (.invalidConfig "heartbeats must be sent well inside the election timeout")
  else if config.tickInterval = 0 then
    .error (.invalidConfig "a tick must have a non-zero duration")
  else if config.maxEntriesPerAppend = 0 then
    .error (.invalidConfig "an AppendEntries must be allowed to carry at least one entry")
  else .ok ()

end RaftConfig

end Astrs.Raft
