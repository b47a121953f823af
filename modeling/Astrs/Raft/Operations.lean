/-
Every operation of a replica is a sequence of small steps.

One lemma per function of the replica, in the order of the calls.
-/

import Astrs.Raft.Merge

namespace Astrs.Raft

open Astrs.Base StateMachine MemoryLog

variable {M : Type} {action : Action} {start node : RaftNode M} {merged : Bool}

/-- Role, term, vote and configuration have not changed. -/
def Steady (node final : RaftNode M) : Prop :=
  final.role = node.role ∧ final.hard = node.hard ∧ final.config = node.config

theorem Steady.refl (node : RaftNode M) : Steady node node := ⟨rfl,rfl,rfl⟩

theorem Steady.trans {first middle last : RaftNode M} (before : Steady first middle)
    (after : Steady middle last) : Steady first last :=
  ⟨after.1.trans before.1,after.2.1.trans before.2.1,after.2.2.trans before.2.2⟩

def Addressed (action : Action) (node : RaftNode M) (recipient : PeerId) : Prop :=
  recipient ≠ node.config.id ∨
    ∃ peer envelope, action = .deliver peer envelope ∧ recipient = envelope.sender

variable [StateMachine M]

/-- The operation has come to this replica state. -/
def Reached (action : Action) (start : RaftNode M) (merged : Bool) (node : RaftNode M) : Prop :=
  NodeSteps action start ⟨start,false⟩ ⟨node,merged⟩

/-- The program ends among the operation's steps, in a state with the property unless it fails. -/
abbrev Ends {α : Type} (action : Action) (start : RaftNode M) (merged : Bool)
    (program : NodeM M α) (node : RaftNode M) (property : RaftNode M → Prop) : Prop :=
  Ensures program node (fun _ final => Reached action start merged final ∧ property final)
    (Reached action start merged)

/-- Role, term, vote and configuration are kept on the way. -/
abbrev Stays {α : Type} (action : Action) (start : RaftNode M) (merged : Bool)
    (program : NodeM M α) (node : RaftNode M) : Prop :=
  Ends action start merged program node (Steady node)

namespace Reached

theorem refl (action : Action) (start : RaftNode M) : Reached action start false start :=
  Relation.ReflTransGen.refl

theorem step {final : RaftNode M} {after : Bool} (reached : Reached action start merged node)
    (next : NodeStep action start ⟨node,merged⟩ ⟨final,after⟩) : Reached action start after final :=
  Relation.ReflTransGen.tail reached next

section

variable (reached : Reached action start merged node)
include reached

theorem resetElectionTimer : Reached action start merged node.resetElectionTimer :=
  reached.step (.quiet node merged node.leader 0 node.heartbeatElapsed _ _ node.applied
    node.pendingConfig)

theorem note (leader : Option PeerId) :
    Reached action start merged { node with leader := leader } :=
  reached.step (.quiet node merged leader node.electionElapsed node.heartbeatElapsed
    node.randomizedTimeout node.rng node.applied node.pendingConfig)

theorem count (election heartbeat : Nat) : Reached action start merged
      { node with electionElapsed := election, heartbeatElapsed := heartbeat } :=
  reached.step (.quiet node merged node.leader election heartbeat node.randomizedTimeout node.rng
    node.applied node.pendingConfig)

theorem speak {recipient : PeerId} {message : RaftMessage}
    (addressed : Addressed action node recipient)
    (speakable : Speakable action start ⟨node,merged⟩ recipient message) :
    Reached action start merged
      { node with
        outbox := node.outbox ++
          [{ sender := node.config.id, recipient := recipient, message := message }] } :=
  reached.step (.speak node merged recipient message addressed speakable)

end

end Reached

theorem pace_of_adjust (progress : OrderedMap PeerId Progress) (peer : PeerId)
    (change : Progress → Progress) (same : ∀ held, (change held).matchIndex = held.matchIndex) :
    ∀ other, ((progress.adjust peer change).get other).map Progress.matchIndex =
      (progress.get other).map Progress.matchIndex := by
  intro other
  rw [OrderedMap.get_adjust]
  by_cases equal : peer = other
  · subst equal
    rw [if_pos rfl,Option.map_map]
    congr 1
    funext held
    exact same held
  · rw [if_neg equal]

theorem Reached.hear (reached : Reached action start merged node) (sender : PeerId) :
    Reached action start merged
      { node with
        progress := node.progress.adjust sender fun held =>
          { held with lastContact := node.ticks } } :=
  reached.step (.pace node merged _ (pace_of_adjust _ _ _ fun _ => rfl))

section

variable (reached : Reached action start merged node) (leads : node.role = .leader)
include reached leads

theorem sendSnapshot_reached {peer : PeerId} (addressed : Addressed action node peer) :
    Stays action start merged (sendSnapshot peer) node := by
  unfold sendSnapshot
  simp only [wp_bind,wp_get]
  cases held : node.log.snapshot with
  | none =>
    exact ⟨reached.step (.pace node merged _ (pace_of_adjust _ _ _ fun _ => rfl)),rfl,rfl,rfl⟩
  | some snapshot =>
    have paced := reached.step (.pace node merged (node.progress.adjust peer fun progress =>
        { progress with
          snapshotInFlight := true
          nextIndex := snapshot.info.lastIndex + 1 })
      (pace_of_adjust _ _ _ fun _ => rfl))
    exact ⟨paced.speak addressed (.installSnapshot snapshot leads held),rfl,rfl,rfl⟩

theorem sendAppend_reached {peer : PeerId} (addressed : Addressed action node peer) :
    Stays action start merged (sendAppend peer) node := by
  unfold sendAppend
  simp only [wp_bind,wp_get]
  cases node.progress.get peer with
  | none => exact ⟨reached,Steady.refl node⟩
  | some progress =>
    simp only [wp_ite]
    refine ⟨fun _ => sendSnapshot_reached reached leads addressed,fun held => ?_⟩
    cases found : node.log.termAt (progress.nextIndex - 1) with
    | none => exact sendSnapshot_reached reached leads addressed
    | some =>
      have first := node.log.firstIndex_eq
      have shifted : progress.nextIndex - 1 + 1 = progress.nextIndex := by omega
      cases read : node.log.entriesFrom progress.nextIndex node.config.maxEntriesPerAppend with
      | error => exact reached
      | ok entries =>
        refine ⟨reached.speak addressed
          (.appendEntries _ _ node.config.maxEntriesPerAppend entries leads found ?_),
          rfl,rfl,rfl⟩
        rw [shifted]
        exact read

theorem broadcastAppend_reached : Stays action start merged broadcastAppend node := by
  unfold broadcastAppend
  refine Ensures.forM ⟨reached,Steady.refl node⟩ ?_
  intro peer mem _ held
  have other : peer ≠ node.config.id := of_decide_eq_true (List.mem_filter.mp mem).2
  refine (sendAppend_reached held.1 (held.2.1.trans leads) (.inl ?_)).imp ?_
  · rw [held.2.2.2]
    exact other
  · intro _ _ after
    exact ⟨after.1,held.2.trans after.2⟩

end

theorem maybeAdvanceCommit_reached (reached : Reached action start merged node) :
    Stays action start merged maybeAdvanceCommit node := by
  unfold maybeAdvanceCommit
  simp only [wp_modify]
  split
  · exact ⟨reached,Steady.refl node⟩
  · rename_i leads
    split
    · exact ⟨reached,Steady.refl node⟩
    · rename_i candidate found
      split
      · exact ⟨reached,Steady.refl node⟩
      · rename_i ahead
        split
        · exact ⟨reached,Steady.refl node⟩
        · rename_i ownTerm
          have advanced := reached.step (.advance node merged candidate (not_not.mp leads) found
            (Nat.lt_of_not_le ahead) (not_not.mp ownTerm))
          exact ⟨advanced.step (.quiet _ merged node.leader node.electionElapsed
            node.heartbeatElapsed node.randomizedTimeout node.rng node.applied _),rfl,rfl,rfl⟩

/-! ### Applying and compacting -/

variable {log : MemoryLog} {mail : Envelope}

theorem saveSnapshot_ok {snapshot : Snapshot} (newer : log.boundary ≤ snapshot.info.lastIndex) :
    ∃ saved, log.saveSnapshot snapshot = .ok saved := by
  unfold saveSnapshot
  cases held : log.snapshot with
  | none => exact ⟨_,rfl⟩
  | some existing =>
    have : ¬ snapshot.info.lastIndex < existing.info.lastIndex := by
      simp only [boundary,held,Option.map_some,Option.getD_some] at newer
      omega
    simp only [this,if_false]
    exact ⟨_,rfl⟩

theorem boundary_le_of_termAt {index term : Nat} (positive : index ≠ 0)
    (found : log.termAt index = some term) : log.boundary ≤ index := by
  rcases termAt_cases found with ⟨zero,_⟩ | ⟨snapshot,held,same,_⟩ | ⟨entry,inside,_⟩
  · exact absurd zero positive
  · simp [boundary,held,same]
  · rw [entry_eq] at inside
    split at inside
    · cases inside
    · omega

section

variable (reached : Reached action start merged node)
include reached

theorem takeSnapshot_reached (asked : node.config.snapshotThreshold ≠ 0 ∧
        node.config.snapshotThreshold ≤ node.lastApplied - node.log.firstIndex ∨
      ∃ peer, action = .takeSnapshot peer) : Stays action start merged takeSnapshot node := by
  unfold takeSnapshot
  simp only [wp_bind,wp_get,wp_ite,wp_pure]
  refine ⟨fun _ => ⟨reached,Steady.refl node⟩,fun applied => ?_⟩
  cases found : node.log.termAt node.lastApplied with
  | none => exact ⟨reached,Steady.refl node⟩
  | some lastTerm =>
    cases captured : snapshot node.machine with
    | error => exact reached
    | ok data =>
      obtain ⟨saved,kept⟩ := @saveSnapshot_ok node.log
        { info :=
            { lastIndex := node.lastApplied
              lastTerm := lastTerm
              membership := node.membership }
          data := data } (boundary_le_of_termAt applied found)
      simp only [wp_bind,wp_modify]
      rw [wp_updateLog _ kept]
      exact ⟨reached.step
        (.capture node merged lastTerm data saved applied found captured asked kept),
        rfl,rfl,rfl⟩

theorem maybeCompact_reached : Stays action start merged maybeCompact node := by
  unfold maybeCompact
  simp only [wp_bind,wp_get,wp_ite,wp_pure]
  refine ⟨fun _ => ⟨reached,Steady.refl node⟩,fun enabled => ?_⟩
  refine ⟨fun _ => ⟨reached,Steady.refl node⟩,fun due => ?_⟩
  exact takeSnapshot_reached reached (.inl ⟨fun zero => enabled (.inl zero),Nat.le_of_not_lt due⟩)

/-- One round of the apply loop. -/
theorem applyEntry_reached (ahead : node.lastApplied < node.commitIndex) :
    Ends action start merged (applyEntry (node.lastApplied + 1)) node fun final =>
      Steady node final ∧ final.lastApplied = node.lastApplied + 1 ∧
        final.commitIndex = node.commitIndex := by
  unfold applyEntry
  simp only [wp_bind,wp_get]
  cases found : node.log.entry (node.lastApplied + 1) with
  | none =>
    have applied := reached.step (.apply node merged node.machine ahead
      (fun entry held => by rw [found] at held; cases held) (.inl rfl))
    exact ⟨applied,Steady.refl node,rfl,rfl⟩
  | some entry =>
    simp only [wp_bind,wp_modify]
    have handed := reached.step (.hand node merged entry ahead found)
    have present : ∀ item, node.log.entry (node.lastApplied + 1) = some item →
        (node.lastApplied + 1,item) ∈ node.handed ++ [(node.lastApplied + 1,entry)] := by
      intro _ held
      rw [found] at held
      cases held
      exact List.mem_append_right _ List.mem_cons_self
    have finish : ∀ (machine : M) (report : List Applied),
        (machine = node.machine ∨ ∃ command reply,
          apply node.machine (node.lastApplied + 1) command = (machine,.ok reply)) →
        Reached action start merged
          { node with
            handed := node.handed ++ [(node.lastApplied + 1,entry)]
            machine := machine
            lastApplied := node.lastApplied + 1
            applied := report } := by
      intro machine report allowed
      have applied := handed.step (.apply _ merged machine ahead present allowed)
      exact applied.step (.quiet _ merged node.leader node.electionElapsed
        node.heartbeatElapsed node.randomizedTimeout node.rng report node.pendingConfig)
    cases payload : entry.payload with
    | command command =>
      simp only [wp_bind,wp_modify]
      cases outcome : (apply node.machine (node.lastApplied + 1) command).2 with
      | ok reply =>
        refine ⟨finish _ _ (.inr ⟨command,reply,?_⟩),Steady.refl node,rfl,rfl⟩
        rw [← outcome]
      | error reason =>
        exact handed.step (.drive _ merged command reason outcome)
    | noop | config => exact ⟨finish _ _ (.inl rfl),Steady.refl node,rfl,rfl⟩

theorem applyRounds_reached (rounds : Nat) (enough : node.lastApplied + rounds ≤ node.commitIndex) :
    Stays action start merged (applyRounds rounds) node := by
  induction rounds generalizing node with
  | zero => exact ⟨reached,Steady.refl node⟩
  | succ rounds ih =>
    unfold applyRounds
    simp only [wp_bind,wp_get]
    refine (applyEntry_reached reached (by omega)).imp ?_
    rintro _ middle ⟨there,steady,_,_⟩
    refine (ih there (by omega)).imp ?_
    intro _ _ after
    exact ⟨after.1,steady.trans after.2⟩

theorem applyCommitted_reached : Stays action start merged applyCommitted node := by
  unfold applyCommitted
  simp only [wp_bind,wp_get]
  by_cases behind : node.lastApplied ≤ node.commitIndex
  · refine (applyRounds_reached reached _ (by omega)).imp ?_
    intro _ _ held
    refine (maybeCompact_reached held.1).imp ?_
    intro _ _ after
    exact ⟨after.1,held.2.trans after.2⟩
  · have none : node.commitIndex - node.lastApplied = 0 := by omega
    rw [none]
    exact maybeCompact_reached reached

theorem advanceAndApply_reached : Ensures maybeAdvanceCommit node
      (fun _ middle => Ends action start merged applyCommitted middle (Steady node))
      (Reached action start merged) := by
  refine (maybeAdvanceCommit_reached reached).imp ?_
  intro _ _ advanced
  refine (applyCommitted_reached advanced.1).imp ?_
  intro _ _ applied
  exact ⟨applied.1,advanced.2.trans applied.2⟩

omit reached in
theorem append_next (log : MemoryLog) (term : Nat) (payload : EntryPayload) :
    log.append [{ term := term, index := log.lastIndex + 1, payload := payload }] = .ok { log with
        entries := log.entries ++
          [{ term := term, index := log.lastIndex + 1, payload := payload }] } := by
  exact append_ok (Numbered.cons_iff.mpr ⟨rfl,Numbered.nil _⟩)

theorem appendLocal_reached (intact : Untouched start node) {payload : EntryPayload}
    (proposed : ∀ membership, payload = .config membership → node = start ∧
      ∃ peer change, action = .proposeMembership peer change ∧
        node.membership.apply change = .ok membership) :
    Always (appendLocal payload) node (Reached action start merged) := by
  unfold appendLocal
  simp only [wp_bind,wp_get,wp_ite,wp_throw]
  refine ⟨fun _ => reached,fun leads => ?_⟩
  have leader : node.role = .leader := not_not.mp leads
  have appended := reached.step (.append node merged payload leader intact proposed)
  have role : (node.appended payload).role = .leader := by
    cases payload <;> exact leader
  have finish : Ensures broadcastAppend (node.appended payload)
      (fun _ middle => Ensures maybeAdvanceCommit middle
        (fun _ middle => Always applyCommitted middle (Reached action start merged))
        (Reached action start merged)) (Reached action start merged) := by
    refine (broadcastAppend_reached appended role).imp ?_
    intro _ _ sent
    refine (advanceAndApply_reached sent.1).imp ?_
    intro _ _ advanced
    exact advanced.imp fun _ _ applied => applied.1
  have next := append_next node.log node.hard.term payload
  cases payload with
  | command | noop =>
    simp only [LogEntry.config,wp_bind,wp_pure,wp_modify]
    rw [wp_updateLog _ next]
    exact finish
  | config =>
    simp only [LogEntry.config,updateLog,wp_bind,wp_get,wp_pure,wp_modify]
    change Ensures (liftLog (node.log.append _)) _ _ _
    rw [next]
    exact finish

end

theorem propose_reached (command : Bytes) :
    Always (propose command) start (Reached action start false) :=
  appendLocal_reached (.refl action start) (.refl start) nofun

theorem proposeMembership_reached {peer : PeerId} {change : MembershipChange}
    (asked : action = .proposeMembership peer change) :
    Always (proposeMembership change) start (Reached action start false) := by
  have reached := Reached.refl action start
  unfold proposeMembership
  simp only [wp_bind,wp_get,wp_ite,wp_throw]
  refine ⟨fun _ => reached,fun _ => ?_⟩
  split
  · exact reached
  · cases applied : start.membership.apply change with
    | error => exact reached
    | ok =>
      simp only [wp_bind,wp_liftLog_ok,wp_modify,wp_pure]
      refine (appendLocal_reached reached (.refl start) ?_).imp ?_
      · intro _ same
        cases same
        exact ⟨rfl,peer,change,asked,applied⟩
      · intro index final after
        exact after.step (.quiet final false final.leader final.electionElapsed
          final.heartbeatElapsed final.randomizedTimeout final.rng final.applied (some index))

/-- A replica that follows in a term, its log and commit index as they were. -/
def Follows (start : RaftNode M) (term : Nat) (node final : RaftNode M) : Prop :=
  final.role = .follower ∧ final.hard.term = term ∧ final.outbox = node.outbox ∧
    (Untouched start node → Untouched start final)

section

variable (reached : Reached action start merged node)
include reached

theorem becomeFollower_reached {term : Nat} (ordered : node.hard.term ≤ term)
    (silent : node.hard.term < term → node.outbox = start.outbox) (leader : Option PeerId) :
    Ends action start merged (becomeFollower term leader) node (Follows start term node) := by
  unfold becomeFollower
  simp only [wp_bind,wp_get,wp_ite,wp_saveHardState,wp_modify]
  constructor
  · intro apart
    have higher := Nat.lt_of_le_of_ne ordered (Ne.symm apart)
    have adopted := reached.step (.adopt node merged term higher (silent higher))
    have noted := adopted.note leader
    rw [RaftNode.saveHardState_eq] at noted ⊢
    exact ⟨noted.resetElectionTimer,rfl,rfl,rfl,fun intact => intact.saveHardState _⟩
  · intro same
    have resigned := reached.step (.resign node merged .empty)
    have noted := resigned.note leader
    exact ⟨noted.resetElectionTimer,rfl,(not_not.mp same).symm,rfl,fun intact => intact⟩

theorem becomeLeader_reached (intact : Untouched start node) (stands : node.role = .candidate)
    (most : node.membership.isQuorum (node.votes.values.filter id).length = true) :
    Always becomeLeader node (Reached action start merged) := by
  unfold becomeLeader
  have won := reached.step (.win node merged stands most)
  change Ensures (appendLocal .noop >>= fun _ => pure ()) node.elected _ _
  rw [wp_bind]
  refine (appendLocal_reached won intact ?_).imp fun _ _ after => after
  exact nofun

/-- Queuing one message to each other voter. -/
theorem forM_send_reached {message : RaftMessage} (speakable : ∀ outbox, ∀ peer ∈ node.otherVoters,
      Speakable action start ⟨{ node with outbox := outbox },merged⟩ peer message) :
    Always (node.otherVoters.forM fun peer => send peer message) node
      (Reached action start merged) := by
  have held : Ends action start merged (node.otherVoters.forM fun peer => send peer message) node
      fun final => ∃ outbox, final = { node with outbox := outbox } := by
    refine Ensures.forM ⟨reached,node.outbox,rfl⟩ ?_
    rintro peer mem middle ⟨there,outbox,rfl⟩
    have other : peer ≠ node.config.id := of_decide_eq_true (List.mem_filter.mp mem).2
    exact ⟨there.speak (.inl other) (speakable outbox peer mem),_,rfl⟩
  exact held.imp fun _ _ after => after.1

theorem campaign_reached (intact : Untouched start node)
    (votes : node.membership.contains node.config.id = true ∨ node.role = .preCandidate)
    (prompted : Prompted action start node) (silent : node.outbox = start.outbox) :
    Always campaign node (Reached action start merged) := by
  unfold campaign
  simp only [wp_bind,wp_get,wp_saveHardState,wp_modify,wp_ite]
  have stood := reached.step (.stand node merged votes prompted silent)
  rw [RaftNode.saveHardState_eq] at stood ⊢
  have noted := (stood.note none).resetElectionTimer
  constructor
  · intro alone
    exact becomeLeader_reached noted (intact.saveHardState _) rfl alone
  · intro _
    refine forM_send_reached noted ?_
    intro _ _ mem
    exact .voteRequest rfl (List.mem_filter.mp mem).1

theorem campaignPreVote_reached (intact : Untouched start node)
    (votes : node.membership.contains node.config.id = true) {peer : PeerId}
    (ticked : action = .tick peer) (same : node.hard.term = start.hard.term)
    (silent : node.outbox = start.outbox) :
    Always campaignPreVote node (Reached action start merged) := by
  unfold campaignPreVote
  simp only [wp_bind,wp_get,wp_modify,wp_ite]
  have stood := reached.step (.preStand node merged votes)
  have noted := (stood.note none).resetElectionTimer
  constructor
  · intro alone
    exact campaign_reached noted intact (.inr rfl)
      (.inl ⟨same,.inl ⟨peer,ticked,.inr alone⟩⟩) silent
  · intro _
    refine forM_send_reached noted ?_
    intro _ _ _
    exact .preVoteRequest _ _ _

theorem handleVoteRequest_reached {peer : PeerId} (mailed : action = .deliver peer mail)
    {preVote : Bool} {term lastLogIndex lastLogTerm : Nat} (asked : preVote = false →
      mail.message = .voteRequest node.hard.term lastLogIndex lastLogTerm) :
    Always (handleVoteRequest mail.sender preVote term lastLogIndex lastLogTerm) node
      (Reached action start merged) := by
  have addressed : Addressed action node mail.sender := .inr ⟨peer,mail,mailed,rfl⟩
  unfold handleVoteRequest
  cases preVote with
  | true =>
    simp only [Bool.not_true,Bool.and_false,Bool.false_eq_true,if_false,if_true]
    exact reached.speak addressed (.preVoteResponse _ _)
  | false =>
    simp only [Bool.not_false,Bool.and_true,Bool.false_eq_true,if_false,wp_ite,
      wp_bind,wp_saveHardState,wp_modify,wp_get,wp_send]
    constructor
    · intro granted
      obtain ⟨available,upToDate⟩ := Bool.and_eq_true_iff.mp granted
      have voted := (reached.step (.grant node merged peer mail lastLogIndex lastLogTerm
        mailed (asked rfl) available upToDate)).resetElectionTimer
      rw [RaftNode.saveHardState_eq] at voted ⊢
      rw [granted]
      exact voted.speak addressed (.voteGranted rfl)
    · intro refused
      rw [Bool.not_eq_true _ |>.mp refused]
      exact reached.speak addressed (.voteRefused _)

theorem handleVoteResponse_reached {peer : PeerId}
    (mailed : action = .deliver peer mail) {preVote granted : Bool}
    (answered : preVote = false → mail.message = .voteResponse node.hard.term granted)
    (asked : preVote = true → (∃ term, mail.message = .preVoteResponse term granted) ∧
      (node.role = .preCandidate → node.hard.term = start.hard.term))
    (silent : node.outbox = start.outbox) (intact : Untouched start node) :
    Always (handleVoteResponse mail.sender preVote granted) node
      (Reached action start merged) := by
  unfold handleVoteResponse
  simp only [wp_bind,wp_get,wp_ite,wp_pure,wp_modify]
  refine ⟨fun _ => reached,fun expected => ?_⟩
  have role := not_not.mp expected
  have counted := reached.step (.tally node merged peer mail granted mailed (by
    cases preVote with
    | true => exact .inr role
    | false => exact .inl ⟨role,answered rfl⟩))
  refine ⟨fun most => ?_,fun _ => ⟨fun _ => ?_,fun _ => counted⟩⟩
  · cases preVote with
    | true =>
      obtain ⟨⟨term,message⟩,unmoved⟩ := asked rfl
      exact ⟨fun _ => campaign_reached counted intact (.inr role) (.inl ⟨unmoved role,
        .inr ⟨peer,mail,term,granted,mailed,message⟩⟩) silent,
        fun no => absurd rfl no⟩
    | false => exact ⟨fun no => Bool.noConfusion no,fun _ =>
      becomeLeader_reached counted intact role most⟩
  · exact (counted.step (.resign _ merged _)).resetElectionTimer

/-! ### Follower side -/

theorem followLeader_reached (sender : PeerId) :
    Ends action start merged (followLeader sender node.hard.term) node fun final =>
      (final.role = .follower ∨ final.role = .leader) ∧ final.hard.term = node.hard.term ∧
        (Untouched start node → Untouched start final) := by
  unfold followLeader
  simp only [wp_bind,wp_get,wp_ite,wp_modify]
  constructor
  · intro _
    refine (becomeFollower_reached reached (Nat.le_refl _)
      (fun higher => absurd higher (Nat.lt_irrefl _)) (some sender)).imp ?_
    rintro _ middle ⟨there,role,term,_,intact⟩
    have noted := (there.note (some sender)).resetElectionTimer
    exact ⟨noted,.inl role,term,intact⟩
  · intro settled
    have noted := (reached.note (some sender)).resetElectionTimer
    refine ⟨noted,?_,rfl,fun intact => intact⟩
    cases role : node.role with
    | follower => exact .inl rfl
    | leader => exact .inr rfl
    | preCandidate | candidate =>
      rw [role] at settled
      exact absurd rfl settled

end

omit [StateMachine M] in
theorem Untouched.contiguous (intact : Untouched start node)
    (dense : start.log.Contiguous) : node.log.Contiguous := by
  rw [intact.log]
  exact dense

theorem sendRejection_reached (reached : Reached action start merged node) {recipient : PeerId}
    (addressed : Addressed action node recipient) (conflictIndex conflictTerm : Nat) :
    Always (sendRejection recipient conflictIndex conflictTerm) node
      (Reached action start merged) := by
  unfold sendRejection
  exact reached.speak addressed (.appendRefused _ _ _)

/-- Some state of the operation, whether or not its message was merged. -/
def Finished (action : Action) (start final : RaftNode M) : Prop :=
  ∃ merged, Reached action start merged final

theorem Reached.finished (reached : Reached action start merged node) :
    Finished action start node := ⟨merged,reached⟩

theorem finished_of_reached {α : Type} {program : NodeM M α}
    (held : Always program node (Reached action start merged)) :
    Always program node (Finished action start) :=
  held.mono (fun _ _ after => after.finished) fun _ stopped => stopped.finished

section

variable {peer : PeerId} {prev prevTerm leaderCommit : Nat} {entries : List LogEntry}
  (reached : Reached action start false node) (mailed : action = .deliver peer mail)
  (message : mail.message = .appendEntries node.hard.term prev prevTerm entries leaderCommit)
  (intact : Untouched start node) (dense : start.log.Contiguous)
  (numbered : Numbered prev entries)
include reached mailed message intact dense numbered

theorem acceptEntries_reached (role : node.role = .follower ∨ node.role = .leader)
    (low : node.log.boundary ≤ prev) (high : prev ≤ node.log.lastIndex)
    (agrees : (node.log.termAt prev).getD 0 = prevTerm) :
    Always (acceptEntries mail.sender prev entries leaderCommit) node
      (Reached action start true) := by
  unfold acceptEntries
  simp only [wp_bind,wp_get,wp_ite,wp_modify]
  refine (wp_mergeEntries (intact.contiguous dense) numbered low high).mono ?_
    fun _ impossible => impossible.elim
  rintro _ middle ⟨pending,rfl⟩
  have accepted := reached.step (.accept node peer mail prev prevTerm entries
    leaderCommit _ pending mailed message role intact low high agrees rfl)
  have reply : ∀ final, Reached action start true final → Steady node final →
      Always (sendAcceptance mail.sender (prev + entries.length)) final
        (Reached action start true) := by
    intro _ there steady
    unfold sendAcceptance
    refine there.speak (.inr ⟨peer,mail,mailed,rfl⟩)
      (.appendAccepted peer mail prev prevTerm entries leaderCommit _ mailed ?_
        (.inr ⟨rfl,rfl⟩))
    rw [steady.2.1]
    exact message
  constructor
  · intro behind
    unfold RaftNode.accepted at accepted
    rw [if_pos behind] at accepted
    refine (applyCommitted_reached accepted).imp ?_
    intro _ final after
    exact reply final after.1 after.2
  · intro current
    unfold RaftNode.accepted at accepted
    rw [if_neg current] at accepted
    exact reply _ accepted ⟨rfl,rfl,rfl⟩

theorem handleAppendEntries_reached :
    Always (handleAppendEntries mail.sender node.hard.term prev prevTerm entries
      leaderCommit) node (Finished action start) := by
  unfold handleAppendEntries
  simp only [wp_bind,wp_get,wp_ite]
  refine (followLeader_reached reached mail.sender).mono ?_ fun _ stopped => stopped.finished
  rintro _ middle ⟨there,role,term,still⟩
  have addressed : Addressed action middle mail.sender := .inr ⟨peer,mail,mailed,rfl⟩
  have messageNow : mail.message =
      .appendEntries middle.hard.term prev prevTerm entries leaderCommit := by
    rw [term]
    exact message
  have boundary : middle.log.firstIndex - 1 = middle.log.boundary := by
    rw [firstIndex_eq]
    rfl
  rw [boundary]
  refine ⟨fun _ => ?_,fun low => ⟨fun _ => ?_,fun high => ⟨fun _ => ?_,fun agrees => ?_⟩⟩⟩
  · unfold sendAcceptance
    exact (there.speak addressed (.appendAccepted peer mail _ _ _ _ _ mailed messageNow
      (.inl rfl))).finished
  · exact finished_of_reached (sendRejection_reached there addressed _ _)
  · exact finished_of_reached (sendRejection_reached there addressed _ _)
  · exact finished_of_reached (acceptEntries_reached there mailed messageNow (still intact) dense numbered role
      (Nat.le_of_not_lt low) (Nat.le_of_not_lt high) (not_not.mp agrees))

end

section

variable {peer : PeerId} (reached : Reached action start merged node)
  (mailed : action = .deliver peer mail)
include reached mailed

theorem handleInstallSnapshot_reached {snapshot : Snapshot}
    (message : mail.message = .installSnapshot node.hard.term snapshot)
    (intact : Untouched start node) :
    Always (handleInstallSnapshot mail.sender snapshot) node (Reached action start merged) := by
  unfold handleInstallSnapshot
  simp only [wp_bind,wp_get]
  refine (followLeader_reached reached mail.sender).imp ?_
  rintro _ middle ⟨there,role,term,still⟩
  have addressed : Addressed action middle mail.sender := .inr ⟨peer,mail,mailed,rfl⟩
  have messageNow : mail.message = .installSnapshot middle.hard.term snapshot := by
    rw [term]
    exact message
  simp only [wp_ite,wp_send,wp_bind,wp_modify]
  constructor
  · intro covered
    exact there.speak addressed
      (.snapshotCovered peer mail snapshot mailed messageNow covered (still intact))
  · intro ahead
    cases outcome : (restore middle.machine snapshot.data).2 with
    | error reason => exact there.step (.spoil middle merged snapshot.data reason outcome)
    | ok =>
      have restored : restore middle.machine snapshot.data =
          ((restore middle.machine snapshot.data).1,.ok ()) := by
        rw [← outcome]
      have installed := there.step (.install middle merged peer mail snapshot _ mailed
        messageNow role (still intact)
        (Nat.lt_of_not_le ahead) restored)
      exact installed.speak addressed
        (.snapshotInstalled peer mail snapshot mailed messageNow rfl)

theorem handleAppendResponse_reached {term : Nat} {success : Bool}
    {matchIndex conflictIndex conflictTerm : Nat} (message : mail.message =
      .appendEntriesResponse term success matchIndex conflictIndex conflictTerm) :
    Always (handleAppendResponse mail.sender term success matchIndex conflictIndex
      conflictTerm) node (Reached action start merged) := by
  unfold handleAppendResponse noteContact
  simp only [wp_bind,wp_get,wp_ite,wp_pure,wp_modify]
  refine ⟨fun _ => reached,fun current => ?_⟩
  obtain ⟨leads,sameTerm⟩ := not_or.mp current
  have leader := not_not.mp leads
  have ownTerm := not_not.mp sameTerm
  have heard := reached.hear mail.sender
  have addressed : ∀ middle : RaftNode M, Addressed action middle mail.sender :=
    fun _ => .inr ⟨peer,mail,mailed,rfl⟩
  cases known : (node.progress.adjust mail.sender fun progress =>
      { progress with lastContact := node.ticks }).get mail.sender with
  | none => exact ⟨fun _ => heard,fun _ => heard⟩
  | some progress =>
    cases success with
    | true =>
      refine ⟨fun _ => ?_,fun no => absurd rfl no⟩
      simp only [wp_bind,wp_modify,wp_ite]
      have credited := heard.step (.credit _ merged peer mail matchIndex mailed (by
        rw [message,ownTerm]
        exact .append matchIndex conflictIndex conflictTerm))
      unfold OrderedMap.adjust at credited
      rw [← OrderedMap.adjust] at credited
      simp only [known] at credited
      refine (advanceAndApply_reached credited).imp ?_
      intro _ _ advanced
      refine advanced.imp ?_
      intro _ third applied
      refine ⟨fun _ => ?_,fun _ => applied.1⟩
      exact (sendAppend_reached applied.1 (applied.2.1.trans leader) (addressed third)).imp
        fun _ _ after => after.1
    | false =>
      refine ⟨fun no => Bool.noConfusion no,fun _ => ?_⟩
      have paced : ∀ next, Reached action start merged
          { node with
            progress := (node.progress.adjust mail.sender fun progress =>
              { progress with lastContact := node.ticks }).insert mail.sender
                { progress with nextIndex := next } } := by
        intro _
        refine heard.step (.pace _ merged _ ?_)
        intro other
        rw [OrderedMap.get_insert]
        by_cases same : mail.sender = other
        · subst same
          rw [if_pos rfl,known]
          rfl
        · rw [if_neg same]
      exact (sendAppend_reached (paced _) leader (addressed _)).imp fun _ _ after => after.1

theorem handleInstallSnapshotResponse_reached {term lastIndex : Nat}
    (message : mail.message = .installSnapshotResponse term lastIndex) :
    Always (handleInstallSnapshotResponse mail.sender term lastIndex) node
      (Reached action start merged) := by
  unfold handleInstallSnapshotResponse noteContact
  simp only [wp_bind,wp_get,wp_ite,wp_pure,wp_modify]
  refine ⟨fun _ => reached,fun current => ?_⟩
  obtain ⟨leads,sameTerm⟩ := not_or.mp current
  have leader := not_not.mp leads
  have ownTerm := not_not.mp sameTerm
  have heard := reached.hear mail.sender
  have credited := heard.step (.credit _ merged peer mail lastIndex mailed (by
    rw [message,ownTerm]
    exact .install lastIndex))
  refine (advanceAndApply_reached credited).imp ?_
  intro _ _ advanced
  refine advanced.imp ?_
  intro _ _ applied
  exact (sendAppend_reached applied.1 (applied.2.1.trans leader)
    (.inr ⟨peer,mail,mailed,rfl⟩)).imp fun _ _ after => after.1

end

/-! ### Ticks and inbound messages -/

theorem tickLeader_reached (reached : Reached action start merged node)
    (leads : node.role = .leader) : Always tickLeader node (Reached action start merged) := by
  have finish : ∀ middle, Reached action start merged middle → Always (do
        modify fun node : RaftNode M => { node with electionElapsed := node.electionElapsed + 1 }
        let node ← get
        if node.config.electionTimeoutTicks ≤ node.electionElapsed ∧
            node.hasQuorumContact node.config.electionTimeoutTicks = false then
          becomeFollower node.hard.term none) middle (Reached action start merged) := by
    intro middle there
    simp only [wp_bind,wp_modify,wp_get,wp_ite,wp_pure]
    have counted := there.count (middle.electionElapsed + 1) middle.heartbeatElapsed
    exact ⟨fun _ => (becomeFollower_reached counted (Nat.le_refl _)
      (fun higher => absurd higher (Nat.lt_irrefl _)) none).imp
      fun _ _ after => after.1,fun _ => counted⟩
  unfold tickLeader
  simp only [wp_bind (modify _),wp_bind get,wp_modify,wp_get]
  have counted := reached.count node.electionElapsed
  rw [wp_ite]
  constructor
  · intro _
    rw [wp_bind,wp_modify,wp_bind]
    refine (broadcastAppend_reached (counted 0) leads).imp ?_
    intro _ middle sent
    exact finish middle sent.1
  · intro _
    exact finish _ (counted _)

theorem tickFollower_reached (reached : Reached action start merged node) {peer : PeerId} (ticked : action = .tick peer)
    (same : node.hard.term = start.hard.term) (silent : node.outbox = start.outbox)
    (intact : Untouched start node) :
    Always tickFollower node (Reached action start merged) := by
  unfold tickFollower
  simp only [wp_bind,wp_modify,wp_get,wp_ite,wp_pure]
  have counted := fun elapsed => reached.count elapsed node.heartbeatElapsed
  refine ⟨fun _ => counted _,fun _ => ⟨fun _ => counted 0,fun votes => ⟨fun _ => ?_,
    fun plain => ?_⟩⟩⟩
  · exact campaignPreVote_reached (counted _) intact (by simpa using votes) ticked same silent
  · exact campaign_reached (counted _) intact (.inl (by simpa using votes))
      (.inl ⟨same,.inl ⟨peer,ticked,.inl (by simpa using plain)⟩⟩) silent

theorem tick_reached {peer : PeerId} (ticked : action = .tick peer) :
    Always tick start (Reached action start false) := by
  unfold tick
  simp only [wp_bind,wp_modify,wp_get,wp_ite]
  have counted := (Reached.refl action start).step (.clock start false)
  refine ⟨fun leads => ?_,fun _ => ?_⟩
  · refine tickLeader_reached counted ?_
    cases role : start.role with
    | leader => rfl
    | follower | preCandidate | candidate =>
      rw [role] at leads
      cases leads
  · exact tickFollower_reached counted ticked rfl rfl (.refl start)

theorem rejectStale_reached (reached : Reached action start merged node) {peer : PeerId}
    (mailed : action = .deliver peer mail) :
    Always (rejectStale mail.sender mail.message) node (Reached action start merged) := by
  have addressed : Addressed action node mail.sender := .inr ⟨peer,mail,mailed,rfl⟩
  unfold rejectStale
  cases mail.message with
  | preVoteRequest => exact reached.speak addressed (.preVoteResponse _ _)
  | voteRequest => exact reached.speak addressed (.voteRefused _)
  | appendEntries | installSnapshot => exact sendRejection_reached reached addressed 0 0
  | preVoteResponse | voteResponse | appendEntriesResponse | installSnapshotResponse
  | timeoutNow => exact reached

/-- The messages handled without adopting their term. -/
def RaftMessage.isPreVote : RaftMessage → Bool
  | .preVoteRequest .. => true
  | .preVoteResponse .. => true
  | _ => false

/-- A replica that has adopted the message's term, or leaves it alone. -/
def Adopts (message : RaftMessage) (start node final : RaftNode M) : Prop :=
  final.outbox = start.outbox ∧
    (message.isPreVote = true ∧ final = node ∨
      final.role = .follower ∧ message.term = final.hard.term) ∧
    (Untouched start node → Untouched start final)

theorem handleHigherTerm_reached (reached : Reached action start merged node) (sender : PeerId)
    {message : RaftMessage} (higher : node.hard.term < message.term)
    (silent : node.outbox = start.outbox) :
    Ends action start merged (handleHigherTerm sender message) node
      (Adopts message start node) := by
  have follow : ∀ leader, Ends action start merged (becomeFollower message.term leader) node
      (Adopts message start node) := by
    intro leader
    refine (becomeFollower_reached reached (Nat.le_of_lt higher) (fun _ => silent) leader).imp ?_
    rintro _ final ⟨there,role,term,outbox,intact⟩
    exact ⟨there,outbox.trans silent,.inr ⟨role,term.symm⟩,intact⟩
  cases message with
  | preVoteRequest => exact ⟨reached,silent,.inl ⟨rfl,rfl⟩,fun intact => intact⟩
  | preVoteResponse term granted =>
    cases granted with
    | true => exact ⟨reached,silent,.inl ⟨rfl,rfl⟩,fun intact => intact⟩
    | false => exact follow none
  | appendEntries | installSnapshot | timeoutNow => exact follow (some sender)
  | voteRequest | voteResponse | appendEntriesResponse | installSnapshotResponse =>
    exact follow none

/-- The entries a message carries follow its predecessor one by one. -/
def RaftMessage.WellFormed : RaftMessage → Prop
  | .appendEntries _ prevLogIndex _ entries _ => Numbered prevLogIndex entries
  | _ => True

theorem dispatch_reached (reached : Reached action start false node) {peer : PeerId}
    (mailed : action = .deliver peer mail)
    (current : mail.message.isPreVote = true ∨ mail.message.term = node.hard.term)
    (unmoved : node.role = .follower ∨ node.hard.term = start.hard.term)
    (silent : node.outbox = start.outbox) (intact : Untouched start node)
    (dense : start.log.Contiguous) (wellFormed : mail.message.WellFormed) :
    Always (dispatch mail.sender mail.message) node (Finished action start) := by
  cases message : mail.message with
  | preVoteRequest =>
    exact finished_of_reached (handleVoteRequest_reached reached mailed nofun)
  | preVoteResponse term =>
    refine finished_of_reached (handleVoteResponse_reached reached mailed nofun
      (fun _ => ⟨⟨term,message⟩,fun role => ?_⟩) silent intact)
    refine unmoved.resolve_left (fun follows => ?_)
    rw [follows] at role
    cases role
  | voteRequest term =>
    rw [message] at current
    have same : term = node.hard.term := current.resolve_left nofun
    exact finished_of_reached (handleVoteRequest_reached reached mailed (fun _ => by rw [message,same]))
  | voteResponse term =>
    rw [message] at current
    have same : term = node.hard.term := current.resolve_left nofun
    exact finished_of_reached (handleVoteResponse_reached reached mailed (fun _ => by rw [message,same])
      nofun silent intact)
  | appendEntries term =>
    rw [message] at current wellFormed
    have same : term = node.hard.term := current.resolve_left nofun
    subst same
    exact handleAppendEntries_reached reached mailed message intact dense wellFormed
  | appendEntriesResponse =>
    exact finished_of_reached (handleAppendResponse_reached reached mailed message)
  | installSnapshot term =>
    rw [message] at current
    have same : term = node.hard.term := current.resolve_left nofun
    subst same
    exact finished_of_reached (handleInstallSnapshot_reached reached mailed message intact)
  | installSnapshotResponse =>
    exact finished_of_reached (handleInstallSnapshotResponse_reached reached mailed message)
  | timeoutNow =>
    refine @finished_of_reached _ _ _ _ false _ _ _ ?_
    unfold dispatch handleTimeoutNow
    simp only [wp_bind,wp_get,wp_ite,wp_pure]
    exact ⟨fun votes => campaign_reached reached intact (.inl votes)
      (.inr ⟨peer,mail,_,mailed,message⟩) silent,fun _ => reached⟩

theorem step_finished {peer : PeerId} (dense : start.log.Contiguous)
    (wellFormed : mail.message.WellFormed) (addressee : mail.recipient = start.config.id) :
    Always (step mail) start (Finished (.deliver peer mail) start) := by
  have reached := Reached.refl (.deliver peer mail) start
  have intact := Untouched.refl start
  unfold step
  simp only [wp_bind,wp_get,wp_ite,wp_pure]
  refine ⟨fun other => absurd addressee other,fun _ => ⟨fun higher => ?_,fun notHigher =>
    ⟨fun _ => ?_,fun notLower => ?_⟩⟩⟩
  · refine (handleHigherTerm_reached reached mail.sender higher rfl).mono ?_
      fun _ stopped => stopped.finished
    rintro _ middle ⟨there,silent,current,still⟩
    rcases current with ⟨preVote,rfl⟩ | ⟨role,term⟩
    · exact dispatch_reached there rfl (.inl preVote) (.inr rfl) silent intact dense
        wellFormed
    · exact dispatch_reached there rfl (.inr term) (.inl role) silent (still intact) dense
        wellFormed
  · exact finished_of_reached (rejectStale_reached reached rfl)
  · exact dispatch_reached reached rfl
      (.inr (Nat.le_antisymm (Nat.le_of_not_lt notHigher) (Nat.le_of_not_lt notLower)))
      (.inr rfl) rfl intact dense wellFormed

def Action.peer : Action → PeerId
  | .tick peer => peer
  | .propose peer _ => peer
  | .proposeMembership peer _ => peer
  | .takeSnapshot peer => peer
  | .deliver peer _ => peer
  | .restart peer _ => peer

/-- A replica rebuilt from the parts of the one it replaces. -/
def Restarted (action : Action) (start final : RaftNode M) : Prop :=
  ∃ peer config, action = .restart peer config ∧ config.id = start.config.id ∧
    config.peers = start.config.peers ∧ RaftNode.new config start.log start.machine = .ok final

/-- What an action does to the replica it runs on: a message for someone else
changes nothing, an operation ends somewhere among its steps, or the replica is
rebuilt. -/
inductive Outcome (sent : List Envelope) (action : Action) (start final : RaftNode M) : Prop where
  | ignored : final = start → Outcome sent action start final
  | operated : Finished action start final →
      (∀ peer envelope, action = .deliver peer envelope →
        envelope ∈ sent ∧ envelope.recipient = start.config.id) → Outcome sent action start final
  | restarted : Restarted action start final → Outcome sent action start final

theorem act_cases {cluster after : Cluster M} (acted : cluster.act action = some after)
    (dense : ∀ peer node, cluster.nodes.get peer = some node → node.log.Contiguous)
    (wellFormed : ∀ mail ∈ cluster.sent, mail.message.WellFormed) :
    ∃ start final, cluster.nodes.get action.peer = some start ∧
      after = cluster.absorb action.peer final ∧ Outcome cluster.sent action start final := by
  have performed : ∀ {α : Type} {operation : NodeM M α},
      cluster.perform action.peer operation = some after →
      (∀ peer mail, action ≠ .deliver peer mail) →
      (∀ start, Always operation start (Reached action start false)) →
      ∃ start final, cluster.nodes.get action.peer = some start ∧
        after = cluster.absorb action.peer final ∧ Outcome cluster.sent action start final := by
    intro α operation done noMail ensured
    obtain ⟨start,found,rfl⟩ := Option.map_eq_some_iff.mp done
    refine ⟨start,_,found,rfl,.operated ⟨false,(ensured start).leaves⟩ ?_⟩
    intro peer mail same
    exact absurd same (noMail peer mail)
  cases action with
  | tick => exact performed acted nofun fun start => tick_reached rfl
  | propose peer command =>
    exact performed acted nofun fun start => propose_reached command
  | proposeMembership =>
    exact performed acted nofun fun start => proposeMembership_reached rfl
  | takeSnapshot peer =>
    refine performed acted nofun fun start => ?_
    exact (takeSnapshot_reached (.refl _ start) (.inr ⟨peer,rfl⟩)).imp fun _ _ after => after.1
  | deliver peer mail =>
    change (if mail ∈ cluster.sent then cluster.perform peer (step mail) else none) =
      some after at acted
    split at acted
    · rename_i posted
      obtain ⟨start,found,rfl⟩ := Option.map_eq_some_iff.mp acted
      refine ⟨start,_,found,rfl,?_⟩
      by_cases addressee : mail.recipient = start.config.id
      · refine .operated (step_finished (dense peer start found)
          (wellFormed mail posted) addressee).leaves fun _ _ same => ?_
        cases same
        exact ⟨posted,addressee⟩
      · refine .ignored ?_
        have skipped : Ensures (step mail) start (fun _ final => final = start)
            (fun final => final = start) := by
          unfold step
          simp only [wp_bind,wp_get,ne_eq,addressee,not_false_eq_true,if_true,
            wp_pure]
        exact skipped.leaves
    · cases acted
  | restart peer config =>
    obtain ⟨start,found,rest⟩ := Option.bind_eq_some_iff.mp acted
    split at rest
    · rename_i kept
      split at rest
      · rename_i restarted built
        cases rest
        exact ⟨start,restarted,found,rfl,.restarted ⟨peer,config,rfl,kept.1,kept.2,built⟩⟩
      · cases rest
    · cases rest

end Astrs.Raft
