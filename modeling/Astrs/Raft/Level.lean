/-
What the operations of a replica keep.

Few operations write the hard state, the configuration, the two marks or what was handed to
the machine, so a property of these is carried through all the others.  Without automatic
compaction the applied index has caught up with the commit index after every operation, or
the machine has refused the entry after it.
-/

import Astrs.Raft.Local

namespace Astrs.Raft

open Astrs.Base

variable {M : Type}

def RaftNode.marks (node : RaftNode M) :
    HardState × RaftConfig × Nat × Nat × List (Nat × LogEntry) :=
  (node.hard,node.config,node.commitIndex,node.lastApplied,node.handed)

/-- A property that reads nothing else. -/
class Coarse (holds : RaftNode M → Prop) : Prop where
  same {node after : RaftNode M} : after.marks = node.marks → holds node → holds after

section Carried

variable {holds : RaftNode M → Prop}

theorem liftLog_keeps {α : Type} (answer : Except RaftError α) : Keeps (liftLog answer) holds := by
  cases answer with
  | ok value => exact .pure value
  | error failure => exact .throw failure

variable [Coarse holds]

theorem Coarse.modify {change : RaftNode M → RaftNode M}
    (same : ∀ node, (change node).marks = node.marks) :
    Keeps (modify change : NodeM M PUnit) holds :=
  fun node held => Coarse.same (same node) held

theorem updateLog_keeps (change : MemoryLog → Except RaftError MemoryLog) :
    Keeps (updateLog change) holds :=
  .bind .get fun _ => .bind (liftLog_keeps _) fun _ => Coarse.modify fun _ => rfl

theorem send_keeps (peer : PeerId) (message : RaftMessage) : Keeps (send peer message) holds :=
  Coarse.modify fun _ => rfl

theorem recomputeMembership_keeps : Keeps recomputeMembership holds :=
  .bind .get fun _ => .bind (liftLog_keeps _) fun _ => Coarse.modify fun _ => rfl

theorem mergeEntries_keeps (batch : List LogEntry) : Keeps (mergeEntries batch) holds := by
  have rebuild : ∀ changed : Bool, Keeps (if changed then recomputeMembership else pure ()) holds :=
    fun _ => .ite (fun _ => recomputeMembership_keeps) fun _ => .pure _
  have extend : ∀ (appended : List LogEntry) (changed : Bool), Keeps (if appended ≠ [] then do
        updateLog fun log => log.append appended
        if changed then recomputeMembership else pure ()
      else if changed then recomputeMembership else pure ()) holds :=
    fun _ _ => .ite (fun _ => .bind (updateLog_keeps _) fun _ => rebuild _) fun _ => rebuild _
  refine .bind .get fun node => ?_
  refine .ite (fun _ => ?_) fun _ => extend _ _
  split
  · exact extend _ _
  · exact .bind (updateLog_keeps _) fun _ => extend _ _

variable (sender : PeerId)

theorem followLeader_keeps {term : Nat}
    (follow : ∀ leader, Keeps (becomeFollower term leader) holds) :
    Keeps (followLeader sender term) holds := by
  refine .bind .get fun _ => .ite (fun _ => .bind (follow _) fun _ => ?_) fun _ => ?_
  · exact Coarse.modify fun _ => rfl
  · exact Coarse.modify fun _ => rfl

theorem sendRejection_keeps (conflictIndex conflictTerm : Nat) :
    Keeps (sendRejection sender conflictIndex conflictTerm) holds :=
  .bind .get fun _ => send_keeps _ _

theorem sendAcceptance_keeps (matchIndex : Nat) : Keeps (sendAcceptance sender matchIndex) holds :=
  .bind .get fun _ => send_keeps _ _

theorem answerVote_keeps (preVote granted : Bool) : Keeps (do
      let node ← get
      send sender (if preVote then .preVoteResponse node.hard.term granted
        else .voteResponse node.hard.term granted)) holds :=
  .bind .get fun _ => send_keeps _ _

theorem rejectStale_keeps (message : RaftMessage) : Keeps (rejectStale sender message) holds := by
  refine .bind .get fun node => ?_
  split
  · exact send_keeps _ _
  · exact send_keeps _ _
  · exact sendRejection_keeps _ _ _
  · exact sendRejection_keeps _ _ _
  · exact .pure _

theorem sendSnapshot_keeps (peer : PeerId) : Keeps (sendSnapshot peer) holds := by
  refine .bind .get fun node => ?_
  split
  · exact Coarse.modify fun _ => rfl
  · exact .bind (Coarse.modify fun _ => rfl) fun _ => send_keeps _ _

theorem sendAppend_keeps (peer : PeerId) : Keeps (sendAppend peer) holds := by
  refine .bind .get fun node => ?_
  split
  · exact .pure _
  · refine .ite (fun _ => sendSnapshot_keeps _) fun _ => ?_
    dsimp only
    split
    · exact sendSnapshot_keeps _
    · exact .bind (liftLog_keeps _) fun _ => send_keeps _ _

theorem broadcastAppend_keeps : Keeps broadcastAppend holds :=
  .bind .get fun _ => .forM fun _ _ => sendAppend_keeps _

end Carried

/-- The entry after the last applied one was given to the machine, and stopped there. -/
def RaftNode.Refused (node : RaftNode M) : Prop :=
  ∃ entry, (node.lastApplied + 1,entry) ∈ node.handed

def RaftNode.Level (node : RaftNode M) : Prop :=
  node.config.snapshotThreshold = 0 ∧ (node.commitIndex ≤ node.lastApplied ∨ node.Refused)

/-- The operation keeps the marks level, whether it returns or stops. -/
abbrev Levels (M : Type) {α : Type} (operation : NodeM M α) : Prop := Keeps operation RaftNode.Level

theorem saveHardState_level (term : Nat) (votedFor : Option PeerId) :
    Levels M (saveHardState term votedFor) := by
  refine .modify fun node held => ?_
  rw [RaftNode.saveHardState_eq]
  exact held

theorem becomeFollower_level (term : Nat) (leader : Option PeerId) :
    Levels M (becomeFollower term leader) := by
  refine .bind .get fun node => ?_
  refine .ite (fun _ => .bind (saveHardState_level _ _) fun _ => ?_) fun _ => ?_
  · exact .modify fun _ held => held
  · exact .modify fun _ held => held

theorem handleHigherTerm_level (sender : PeerId) (message : RaftMessage) :
    Levels M (handleHigherTerm sender message) := by
  unfold handleHigherTerm
  split
  · exact .pure _
  · exact .pure _
  · exact becomeFollower_level _ _
  · exact becomeFollower_level _ _
  · exact becomeFollower_level _ _
  · exact becomeFollower_level _ _

/-! ### Operations that commit -/

variable [StateMachine M]

/-- A coarse property that applying restores, wherever the commit index was raised to, and
that stepping down in the same term keeps. -/
class Settles (holds : RaftNode M → Prop) : Prop extends Coarse holds where
  settle {node start : RaftNode M} : holds node → start.hard = node.hard →
    start.config = node.config → Always applyCommitted start holds
  install (node : RaftNode M) (index : Nat) :
    holds node → holds { node with commitIndex := index, lastApplied := index }
  follow (node : RaftNode M) (leader : Option PeerId) :
    holds node → Keeps (becomeFollower node.hard.term leader) holds

section Settled

variable {holds : RaftNode M → Prop} [Settles holds]

theorem commit_keeps {α : Type} {rest : Unit → NodeM M α} (after : ∀ done, Keeps (rest done) holds) :
    Keeps (maybeAdvanceCommit >>= fun _ => applyCommitted >>= rest) holds := by
  intro start held
  have advanced : Ensures maybeAdvanceCommit start
      (fun _ final => final.hard = start.hard ∧ final.config = start.config) holds := by
    unfold maybeAdvanceCommit
    rw [wp_modify]
    repeat' split
    all_goals exact ⟨rfl,rfl⟩
  rw [wp_bind]
  refine advanced.imp ?_
  rintro _ middle ⟨hard,config⟩
  rw [wp_bind]
  exact (Settles.settle held hard config).imp fun done final kept => after done final kept

theorem appendLocal_keeps (payload : EntryPayload) : Keeps (appendLocal payload) holds := by
  refine .bind .get fun node => .ite (fun _ => .throw _) fun _ => ?_
  have finish : ∀ index, Keeps (do
      modify fun node : RaftNode M =>
        { node with
          progress := node.progress.adjust node.config.id fun own =>
            { own with matchIndex := index, nextIndex := index + 1 } }
      broadcastAppend
      maybeAdvanceCommit
      applyCommitted
      pure index) holds := fun _ =>
    .bind (Coarse.modify fun _ => rfl) fun _ => .bind broadcastAppend_keeps fun _ =>
      commit_keeps fun _ => .pure _
  dsimp only
  split
  · exact .bind (Coarse.modify fun _ => rfl) fun _ => .bind (updateLog_keeps _) fun _ => finish _
  · exact .bind (updateLog_keeps _) fun _ => finish _

theorem becomeLeader_keeps : Keeps becomeLeader holds :=
  .bind (Coarse.modify fun _ => rfl) fun _ => .bind (appendLocal_keeps _) fun _ => .pure _

theorem proposeMembership_keeps (change : MembershipChange) :
    Keeps (proposeMembership change) holds := by
  refine .bind .get fun _ => .ite (fun _ => .throw _) fun _ => ?_
  split
  · exact .throw _
  · exact .bind (liftLog_keeps _) fun _ => .bind (appendLocal_keeps _) fun _ =>
      .bind (Coarse.modify fun _ => rfl) fun _ => .pure _

theorem tickLeader_keeps : Keeps tickLeader holds := by
  have finish : Keeps (do
      modify fun node : RaftNode M => { node with electionElapsed := node.electionElapsed + 1 }
      let node ← get
      if node.config.electionTimeoutTicks ≤ node.electionElapsed ∧
          node.hasQuorumContact node.config.electionTimeoutTicks = false then
        becomeFollower node.hard.term none) holds :=
    .bind (Coarse.modify fun _ => rfl) fun _ => .read fun node held =>
      .ite (fun _ => Settles.follow node _ held) fun _ => .pure _
  refine .bind (Coarse.modify fun _ => rfl) fun _ => .bind .get fun node => ?_
  refine .ite (fun _ => ?_) fun _ => finish
  exact .bind (Coarse.modify fun _ => rfl) fun _ => .bind broadcastAppend_keeps fun _ => finish

variable (sender : PeerId)

theorem acceptEntries_keeps (prev : Nat) (batch : List LogEntry)
    (leaderCommit : Nat) : Keeps (acceptEntries sender prev batch leaderCommit) holds := by
  refine .bind (mergeEntries_keeps _) fun _ => .bind .get fun _ => ?_
  refine .ite (fun _ => ?_) fun _ => sendAcceptance_keeps _ _
  intro node held
  rw [wp_bind,wp_modify,wp_bind]
  refine Ensures.imp (Settles.settle held (by rfl) (by rfl)) fun _ middle kept => ?_
  exact sendAcceptance_keeps _ _ middle kept

theorem handleAppendEntries_keeps {term : Nat}
    (follow : ∀ leader, Keeps (becomeFollower term leader) holds) (prev prevLogTerm : Nat)
    (batch : List LogEntry) (leaderCommit : Nat) :
    Keeps (handleAppendEntries sender term prev prevLogTerm batch leaderCommit) holds := by
  refine .bind (followLeader_keeps _ follow) fun _ => .bind .get fun _ => ?_
  refine .ite (fun _ => sendAcceptance_keeps _ _) fun _ => ?_
  refine .ite (fun _ => sendRejection_keeps _ _ _) fun _ => ?_
  exact .ite (fun _ => sendRejection_keeps _ _ _) fun _ => acceptEntries_keeps _ _ _ _

theorem handleInstallSnapshot_keeps (snapshot : Snapshot) :
    Keeps (handleInstallSnapshot sender snapshot) holds := by
  refine .read fun node held => ?_
  refine .bind (followLeader_keeps _ fun _ => Settles.follow node _ held) fun _ => ?_
  refine .bind .get fun node => .ite (fun _ => send_keeps _ _) fun _ => ?_
  refine .bind (Coarse.modify fun _ => rfl) fun _ => ?_
  split
  · exact .throw _
  · refine .bind (.modify fun node kept => ?_) fun _ => send_keeps _ _
    exact Coarse.same (by rfl) (Settles.install node snapshot.info.lastIndex kept)

theorem handleAppendResponse_keeps (term : Nat) (success : Bool)
    (matchIndex conflictIndex conflictTerm : Nat) :
    Keeps (handleAppendResponse sender term success matchIndex conflictIndex conflictTerm)
      holds := by
  refine .bind .get fun _ => .ite (fun _ => .pure _) fun _ => ?_
  refine .bind (Coarse.modify fun _ => rfl) fun _ => .bind .get fun node => ?_
  refine .ite (fun _ => ?_) fun _ => ?_
  · split
    · exact .pure _
    · refine .bind (Coarse.modify fun _ => rfl) fun _ => commit_keeps fun _ => ?_
      exact .ite (fun _ => sendAppend_keeps _) fun _ => .pure _
  · dsimp only
    split
    · exact .pure _
    · exact .bind (Coarse.modify fun _ => rfl) fun _ => sendAppend_keeps _

theorem handleInstallSnapshotResponse_keeps (term lastIndex : Nat) :
    Keeps (handleInstallSnapshotResponse sender term lastIndex) holds := by
  refine .bind .get fun _ => .ite (fun _ => .pure _) fun _ => ?_
  refine .bind (Coarse.modify fun _ => rfl) fun _ => .bind (Coarse.modify fun _ => rfl) fun _ => ?_
  exact commit_keeps fun _ => sendAppend_keeps _

end Settled

/-- One round applies one entry, unless the machine refuses it. -/
theorem applyEntry_advances (node : RaftNode M) : Ensures (applyEntry (node.lastApplied + 1)) node
      (fun _ final => final.config = node.config ∧ final.commitIndex = node.commitIndex ∧
        final.lastApplied = node.lastApplied + 1)
      (fun final => final.config = node.config ∧ final.Refused) := by
  unfold applyEntry
  simp only [wp_bind,wp_get]
  cases node.log.entry (node.lastApplied + 1) with
  | none => exact ⟨rfl,rfl,rfl⟩
  | some entry =>
    simp only [wp_bind,wp_modify]
    cases entry.payload with
    | noop | config => exact ⟨rfl,rfl,rfl⟩
    | command command =>
      simp only [wp_bind,wp_modify]
      cases (StateMachine.apply node.machine (node.lastApplied + 1) command).2 with
      | ok => exact ⟨rfl,rfl,rfl⟩
      | error => exact ⟨rfl,entry,List.mem_append_right _ (List.mem_singleton.mpr rfl)⟩

theorem applyRounds_advances (rounds : Nat) (node : RaftNode M) : Ensures (applyRounds rounds) node
      (fun _ final => final.config = node.config ∧ final.commitIndex = node.commitIndex ∧
        final.lastApplied = node.lastApplied + rounds)
      (fun final => final.config = node.config ∧ final.Refused) := by
  induction rounds generalizing node with
  | zero => exact ⟨rfl,rfl,rfl⟩
  | succ rounds ih =>
    unfold applyRounds
    simp only [wp_bind,wp_get]
    refine (applyEntry_advances node).imp ?_
    rintro _ middle ⟨config,commit,_⟩
    refine (ih middle).mono ?_ ?_
    · rintro _ final ⟨sameConfig,sameCommit,_⟩
      refine ⟨sameConfig.trans config,sameCommit.trans commit,?_⟩
      omega
    · rintro final ⟨sameConfig,refused⟩
      exact ⟨sameConfig.trans config,refused⟩

/-- Applying levels the marks, wherever the commit index was raised to. -/
theorem applyCommitted_levels {node : RaftNode M}
    (uncompacted : node.config.snapshotThreshold = 0) :
    Always applyCommitted node RaftNode.Level := by
  unfold applyCommitted maybeCompact
  simp only [wp_bind,wp_get]
  refine (applyRounds_advances _ node).mono ?_ ?_
  · rintro _ final ⟨config,_,_⟩
    have threshold : final.config.snapshotThreshold = 0 := by rw [config,uncompacted]
    rw [if_pos (.inl threshold),wp_pure]
    refine ⟨threshold,.inl ?_⟩
    omega
  · rintro final ⟨config,refused⟩
    exact ⟨by rw [config,uncompacted],.inr refused⟩

instance : Settles (RaftNode.Level (M := M)) where
  same equal level := by
    simp only [RaftNode.marks,Prod.mk.injEq] at equal
    obtain ⟨-,config,commit,applied,handed⟩ := equal
    unfold RaftNode.Level RaftNode.Refused
    rw [config,commit,applied,handed]
    exact level
  settle level _ config := applyCommitted_levels (by rw [config]; exact level.1)
  install _ _ level := ⟨level.1,.inl (Nat.le_refl _)⟩
  follow _ leader _ := becomeFollower_level _ leader

variable (sender : PeerId)

theorem handleVoteRequest_level (preVote : Bool) (term lastLogIndex lastLogTerm : Nat) :
    Levels M (handleVoteRequest sender preVote term lastLogIndex lastLogTerm) := by
  refine .bind .get fun node => .ite (fun _ => ?_) fun _ => answerVote_keeps _ _ _
  refine .bind (saveHardState_level _ _) fun _ => .bind (.modify fun _ held => held) fun _ => ?_
  exact answerVote_keeps _ _ _

theorem campaign_level : Levels M campaign :=
  .bind .get fun _ => .bind (saveHardState_level _ _) fun _ =>
    .bind (.modify fun _ held => held) fun _ => .bind .get fun _ =>
      .ite (fun _ => becomeLeader_keeps) fun _ => .forM fun _ _ => send_keeps _ _

theorem campaignPreVote_level : Levels M campaignPreVote :=
  .bind (.modify fun _ held => held) fun _ => .bind .get fun _ =>
    .ite (fun _ => campaign_level) fun _ => .forM fun _ _ => send_keeps _ _

theorem handleVoteResponse_level (preVote granted : Bool) :
    Levels M (handleVoteResponse sender preVote granted) := by
  refine .bind .get fun _ => .ite (fun _ => .pure _) fun _ => ?_
  refine .bind (.modify fun _ held => held) fun _ => .bind .get fun _ => ?_
  refine .ite (fun _ => ?_) fun _ => .ite (fun _ => ?_) fun _ => .pure _
  · exact .ite (fun _ => campaign_level) fun _ => becomeLeader_keeps
  · exact .modify fun _ held => held

theorem tick_level : Levels M tick := by
  refine .bind (.modify fun _ held => held) fun _ => .bind .get fun _ => ?_
  refine .ite (fun _ => tickLeader_keeps) fun _ => ?_
  refine .bind (.modify fun _ held => held) fun _ => .bind .get fun _ => ?_
  refine .ite (fun _ => .pure _) fun _ => .ite (fun _ => .modify fun _ held => held) fun _ => ?_
  exact .ite (fun _ => campaignPreVote_level) fun _ => campaign_level

theorem dispatch_level (message : RaftMessage) : Levels M (dispatch sender message) := by
  cases message with
  | preVoteRequest | voteRequest => exact handleVoteRequest_level _ _ _ _ _
  | preVoteResponse | voteResponse => exact handleVoteResponse_level _ _ _
  | appendEntries => exact handleAppendEntries_keeps _ (becomeFollower_level _) _ _ _ _
  | appendEntriesResponse => exact handleAppendResponse_keeps _ _ _ _ _ _
  | installSnapshot => exact handleInstallSnapshot_keeps _ _
  | installSnapshotResponse => exact handleInstallSnapshotResponse_keeps _ _ _
  | timeoutNow => exact .bind .get fun _ => .ite (fun _ => campaign_level) fun _ => .pure _

theorem step_level (envelope : Envelope) : Levels M (step envelope) := by
  refine .bind .get fun _ => .ite (fun _ => .pure _) fun _ => .ite (fun _ => ?_) fun _ => ?_
  · exact .bind (handleHigherTerm_level _ _) fun _ => dispatch_level _ _
  · exact .ite (fun _ => rejectStale_keeps _ _) fun _ => dispatch_level _ _

end Astrs.Raft
