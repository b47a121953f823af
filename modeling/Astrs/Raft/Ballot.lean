/-
The term and the vote of a replica only move forward.

Whatever arrives, the term does not fall and a vote stands as long as its term.  The last
term has no next one: who stands for election there once more takes back the vote it gave.
-/

import Astrs.Raft.Level
import Astrs.Raft.Runs

namespace Astrs.Raft

open Astrs.Base

variable {M : Type}

def HardState.Forward (before after : HardState) : Prop :=
  before.term ≤ after.term ∧
    (after.term = before.term → before.votedFor = none ∨ after.votedFor = before.votedFor)

def RaftNode.Bears (hard : HardState) (node : RaftNode M) : Prop := node.hard = hard

variable {first second third hard : HardState} {node : RaftNode M}

theorem HardState.Forward.refl (hard : HardState) : hard.Forward hard :=
  ⟨Nat.le_refl _,fun _ => .inr rfl⟩

theorem HardState.Forward.trans (early : first.Forward second) (late : second.Forward third) :
    first.Forward third := by
  refine ⟨early.1.trans late.1,fun same => ?_⟩
  have below := late.1
  have above := early.1
  rcases early.2 (by omega) with none | kept
  · exact .inl none
  · rw [← kept]
    rcases late.2 (by omega) with none | further
    · exact .inl none
    · exact .inr further

theorem becomeFollower_bears (leader : Option PeerId) :
    Keeps (becomeFollower node.hard.term leader) (RaftNode.Bears (M := M) node.hard) := by
  refine .read fun other same => .ite (fun differs => absurd ?_ differs) fun _ => ?_
  · exact congrArg HardState.term same.symm
  · exact .modify fun _ held => held

/-- The operation moves the hard state forward, whether it returns or stops. -/
abbrev Forwards {α : Type} (operation : NodeM M α) (node : RaftNode M) : Prop :=
  Always operation node fun final => node.hard.Forward final.hard

section

variable {α : Type} {operation : NodeM M α}

theorem forwards_of_bears
    (borne : Always operation node (RaftNode.Bears hard)) (forward : node.hard.Forward hard) :
    Forwards operation node := by
  have onward : ∀ final : RaftNode M, final.Bears hard → node.hard.Forward final.hard := by
    intro final same
    rw [same]
    exact forward
  exact borne.mono (fun _ => onward) onward

theorem forwards_of_keeps
    (kept : Keeps operation (RaftNode.Bears node.hard)) : Forwards operation node :=
  forwards_of_bears (kept node rfl) (.refl _)

end

theorem handleVoteRequest_forwards (sender : PeerId) (preVote : Bool)
    (term lastLogIndex lastLogTerm : Nat) :
    Forwards (handleVoteRequest sender preVote term lastLogIndex lastLogTerm) node := by
  unfold handleVoteRequest saveHardState send
  simp only [wp_bind,wp_get,wp_ite,wp_modify]
  refine ⟨fun given => ?_,fun _ => .refl _⟩
  rw [RaftNode.saveHardState_eq]
  cases preVote with
  | true => simp at given
  | false =>
    simp only [Bool.false_eq_true,if_false,Bool.not_false,Bool.and_true,Bool.and_eq_true,
      Bool.or_eq_true,HardState.canVote,HardState.hasVotedFor,decide_eq_true_eq,
      Option.isNone_iff_eq_none] at given
    exact ⟨Nat.le_refl _,fun _ => given.1.imp_right Eq.symm⟩

section Machine

variable [StateMachine M]

theorem applyEntry_bears (index : Nat) :
    Keeps (applyEntry index : NodeM M Unit) (RaftNode.Bears hard) := by
  refine .bind .get fun node => ?_
  split
  · exact .modify fun _ held => held
  · refine .bind (.modify fun _ held => held) fun _ => ?_
    dsimp only
    split
    · refine .bind (.modify fun _ held => held) fun _ => ?_
      split
      · exact .bind (.pure _) fun _ => .modify fun _ held => held
      · exact .bind (.throw _) fun _ => .modify fun _ held => held
    · exact .bind (.pure _) fun _ => .modify fun _ held => held
    · exact .bind (.pure _) fun _ => .modify fun _ held => held

instance : Coarse (RaftNode.Bears (M := M) hard) where
  same equal held := (Prod.mk.inj equal).1.trans held

theorem applyCommitted_bears : Keeps (applyCommitted : NodeM M Unit) (RaftNode.Bears hard) := by
  have rounds : ∀ count, Keeps (applyRounds count : NodeM M Unit) (RaftNode.Bears hard) := by
    intro count
    induction count with
    | zero => exact .pure _
    | succ count ih => exact .bind .get fun _ => .bind (applyEntry_bears _) fun _ => ih
  refine .bind .get fun _ => .bind (rounds _) fun _ => ?_
  refine .bind .get fun _ => .ite (fun _ => .pure _) fun _ => .ite (fun _ => .pure _) fun _ => ?_
  refine .bind .get fun _ => .ite (fun _ => .pure _) fun _ => ?_
  split
  · exact .pure _
  · split
    · exact .throw _
    · exact .bind (.modify fun _ held => held) fun _ => updateLog_keeps _

instance : Settles (RaftNode.Bears (M := M) hard) where
  settle held same _ := applyCommitted_bears _ (same.trans held)
  install _ _ held := held
  follow node leader held := by
    cases held
    exact becomeFollower_bears leader

/-! ### Standing for election -/

/-- Some message makes the replica stand. -/
def RaftNode.CanStand (node : RaftNode M) : Prop :=
  node.membership.contains node.config.id = true ∨ node.role = .preCandidate ∧
    ∃ sender granted, node.membership.isQuorum
      ((node.votes.insert sender granted).values.filter id).length = true

/-- Standing once more takes back no vote given to another. -/
def RaftNode.Unspent (node : RaftNode M) : Prop :=
  node.hard.term < u64Max ∨ node.hard.votedFor = none ∨ node.hard.votedFor = some node.config.id

theorem campaign_bears (node : RaftNode M) : Always campaign node
    (RaftNode.Bears ⟨Term.next node.hard.term,some node.config.id⟩) := by
  unfold campaign saveHardState
  simp only [wp_bind,wp_get,wp_modify]
  rw [RaftNode.saveHardState_eq]
  exact (Keeps.ite (fun _ => becomeLeader_keeps) fun _ => .forM fun _ _ => send_keeps _ _) _ rfl

variable (fits : node.hard.term ≤ u64Max)
include fits

theorem campaign_forwards (unspent : node.Unspent) : Forwards campaign node := by
  refine forwards_of_bears (campaign_bears node) ?_
  unfold HardState.Forward Term.next
  dsimp only
  refine ⟨by omega,fun same => ?_⟩
  rcases unspent with below | none | own
  · omega
  · exact .inl none
  · exact .inr own.symm

variable (firm : node.CanStand → node.Unspent)
include firm

theorem handleVoteResponse_forwards (sender : PeerId) (preVote granted : Bool) :
    Forwards (handleVoteResponse sender preVote granted) node := by
  unfold handleVoteResponse
  simp only [wp_bind,wp_get,wp_ite,wp_modify,wp_pure]
  refine ⟨fun _ => .refl _,fun role => ⟨fun most => ⟨fun pre => ?_,fun _ => ?_⟩,fun _ =>
    ⟨fun _ => .refl _,fun _ => .refl _⟩⟩⟩
  · refine campaign_forwards fits (firm (.inr ⟨?_,sender,granted,most⟩))
    rw [if_pos pre] at role
    exact not_not.mp role
  · exact forwards_of_keeps becomeLeader_keeps

theorem tick_forwards : Forwards tick node := by
  unfold tick tickFollower campaignPreVote
  simp only [wp_bind,wp_get,wp_ite,wp_modify,wp_pure]
  refine ⟨fun _ => forwards_of_keeps tickLeader_keeps,fun _ => ⟨fun _ => .refl _,fun _ =>
    ⟨fun _ => .refl _,fun voter => ?_⟩⟩⟩
  have unspent := firm (.inl (by simpa using voter))
  refine ⟨fun _ => ⟨fun _ => ?_,fun _ => ?_⟩,fun _ => ?_⟩
  · exact campaign_forwards fits unspent
  · exact forwards_of_keeps (.forM fun _ _ => send_keeps _ _)
  · exact campaign_forwards fits unspent

theorem dispatch_forwards (sender : PeerId) {message : RaftMessage}
    (current : message.isPreVote = true ∨ message.term = node.hard.term) :
    Forwards (dispatch sender message) node := by
  cases message with
  | preVoteRequest | voteRequest => exact handleVoteRequest_forwards _ _ _ _ _
  | preVoteResponse | voteResponse => exact handleVoteResponse_forwards fits firm _ _ _
  | appendEntries =>
    obtain rfl := current.resolve_left nofun
    exact forwards_of_keeps (handleAppendEntries_keeps _ becomeFollower_bears _ _ _ _)
  | appendEntriesResponse => exact forwards_of_keeps (handleAppendResponse_keeps _ _ _ _ _ _)
  | installSnapshot => exact forwards_of_keeps (handleInstallSnapshot_keeps _ _)
  | installSnapshotResponse =>
    exact forwards_of_keeps (handleInstallSnapshotResponse_keeps _ _ _)
  | timeoutNow =>
    unfold dispatch handleTimeoutNow
    simp only [wp_bind,wp_get,wp_ite,wp_pure]
    exact ⟨fun voter => campaign_forwards fits (firm (.inl voter)),fun _ => .refl _⟩

theorem step_forwards {mail : Envelope} (sized : mail.message.term ≤ u64Max) :
    Forwards (step mail) node := by
  obtain ⟨sender,recipient,message⟩ := mail
  unfold step
  simp only [wp_bind,wp_get,wp_ite,wp_pure]
  refine ⟨fun _ => .refl _,fun _ => ⟨fun higher => ?_,fun notHigher =>
    ⟨fun _ => forwards_of_keeps (rejectStale_keeps _ _),fun notLower => ?_⟩⟩⟩
  · have adopt : ∀ leader, Ensures (becomeFollower message.term leader) node (fun _ middle =>
        Always (dispatch sender message) middle fun final => node.hard.Forward final.hard)
        fun final => node.hard.Forward final.hard := by
      intro leader
      have onward : node.hard.Forward ⟨message.term,none⟩ :=
        ⟨Nat.le_of_lt higher,fun same => absurd same (Nat.ne_of_gt higher)⟩
      unfold becomeFollower saveHardState
      simp only [wp_bind,wp_get,wp_ite,wp_modify]
      rw [RaftNode.saveHardState_eq]
      refine ⟨fun _ => ?_,fun same => absurd (Nat.ne_of_gt higher) same⟩
      exact (dispatch_forwards sized (fun _ => .inr (.inl rfl)) sender (.inr rfl)).mono
        (fun _ _ => onward.trans) fun _ => onward.trans
    cases message with
    | preVoteRequest => exact dispatch_forwards fits firm sender (.inl rfl)
    | preVoteResponse term granted =>
      cases granted with
      | true => exact dispatch_forwards fits firm sender (.inl rfl)
      | false => exact adopt none
    | appendEntries | installSnapshot | timeoutNow => exact adopt (some sender)
    | voteRequest | voteResponse | appendEntriesResponse | installSnapshotResponse =>
      exact adopt none
  · exact dispatch_forwards fits firm sender
      (.inr (Nat.le_antisymm (Nat.le_of_not_lt notHigher) (Nat.le_of_not_lt notLower)))

omit fits firm in
theorem exists_stands (standing : node.CanStand) :
    ∃ mail : Envelope, mail.message.term = node.hard.term ∧
      Always (step mail) node
        (RaftNode.Bears ⟨Term.next node.hard.term,some node.config.id⟩) := by
  rcases standing with voter | ⟨role,sender,granted,most⟩
  · refine ⟨⟨0,node.config.id,.timeoutNow node.hard.term⟩,rfl,?_⟩
    simpa [step,RaftMessage.term,dispatch,handleTimeoutNow,voter] using campaign_bears node
  · refine ⟨⟨sender,node.config.id,.preVoteResponse node.hard.term granted⟩,rfl,?_⟩
    simpa [step,RaftMessage.term,dispatch,handleVoteResponse,role,most] using campaign_bears
      { node with votes := node.votes.insert sender granted }

omit firm in
/-- Every operation moves every replica's term and vote forward, unless the replica is in the
last term, has voted there for another, and can stand. -/
theorem term_vote_forward_iff :
    ((∀ envelope : Envelope, envelope.message.term ≤ u64Max →
        node.hard.Forward (leaves (step envelope) node).hard) ∧
      node.hard.Forward (leaves tick node).hard ∧
      (∀ command, node.hard.Forward (leaves (propose command) node).hard) ∧
      ∀ change, node.hard.Forward (leaves (proposeMembership change) node).hard) ↔
    (node.CanStand → node.Unspent) := by
  constructor
  · rintro ⟨stepped,-⟩ standing
    by_contra spent
    obtain ⟨high,cast⟩ := not_or.mp spent
    have last : node.hard.term = u64Max := by omega
    obtain ⟨envelope,sized,again⟩ := exists_stands standing
    have kept := (stepped envelope (by omega)).2
    rw [again.leaves,last] at kept
    rcases kept rfl with none | own
    · exact cast (.inl none)
    · exact cast (.inr own.symm)
  · intro firm
    refine ⟨fun _ sized => (step_forwards fits firm sized).leaves,
      (tick_forwards fits firm).leaves,fun _ => ?_,fun _ => ?_⟩
    · exact (forwards_of_keeps (appendLocal_keeps _)).leaves
    · exact (forwards_of_keeps (proposeMembership_keeps _)).leaves

end Machine

/-- A replica that voted for another in the last term but one is told to stand. -/
theorem cast_vote_forward : ∃ start : RaftNode Register,
    RaftNode.new (sampleConfig [1,2,3] 1) { MemoryLog.new with hardState := ⟨u64Max - 1,some 2⟩ }
        (Register.mk []) = .ok start ∧
      start.hard = ⟨u64Max - 1,some 2⟩ ∧
      start.hard.Forward (leaves (step ⟨2,1,.timeoutNow (u64Max - 1)⟩) start).hard :=
  ⟨_,rfl,rfl,((term_vote_forward_iff (Nat.sub_le _ _)).mpr fun _ => .inl (by decide)).1 _
    (Nat.sub_le _ _)⟩

/-- A replica that voted for another in the last term is told to stand. -/
theorem last_term_vote_replaced : ∃ start : RaftNode Register,
    RaftNode.new (sampleConfig [1,2,3] 1) { MemoryLog.new with hardState := ⟨u64Max,some 2⟩ }
        (Register.mk []) = .ok start ∧
      start.hard = ⟨u64Max,some 2⟩ ∧
      (leaves (step ⟨2,1,.timeoutNow u64Max⟩) start).hard = ⟨u64Max,some 1⟩ :=
  ⟨_,rfl,rfl,by decide +kernel⟩

end Astrs.Raft
