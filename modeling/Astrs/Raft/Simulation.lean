/-
Every step of a replica is a sequence of transitions of the abstract protocol.

`Tracks` and `Sent` only get easier as the abstract records grow, so a step of one replica
never has to look at the others.
-/

import Astrs.Raft.Mirror

namespace Astrs.Raft

open Astrs.Base Astrs.Consensus List Raft.Membership OrderedSet RaftNode
open Function (update update_self)

abbrev History := State PeerId LogEntry

def standing : Role → Standing
  | .follower => .idle
  | .preCandidate => .idle
  | .candidate => .candidate
  | .leader => .leading

section Relation

variable (M : Type) [StateMachine M] (bootstrap : OrderedSet PeerId) (guards : Guards)

/-- A snapshot folds a front of a line, and its data comes from a machine that
had applied no more than that front. -/
structure Folds (line : List LogEntry) (snapshot : Snapshot) : Prop where
  positive : snapshot.info.lastIndex ≠ 0
  known : historyTerm line snapshot.info.lastIndex = some snapshot.info.lastTerm
  member : snapshot.info.membership =
    Membership.fromEntries ⟨bootstrap⟩ (line.take snapshot.info.lastIndex)
  source : ∃ machine : M, StateMachine.snapshot machine = .ok snapshot.data ∧
    (guards.durable → StateMachine.appliedIndex machine ≤ snapshot.info.lastIndex)

/-- What a message in the network stands for. -/
def Sent (history : History) (envelope : Envelope) : Prop :=
  match envelope.message with
  | .voteRequest term lastLogIndex lastLogTerm =>
    ∃ base, history.campaign envelope.sender term = some base ∧ base.length = lastLogIndex ∧
      (setting bootstrap).lastTerm base = lastLogTerm ∧
      envelope.recipient ∈ (setting bootstrap).configuration base
  | .voteResponse term true =>
    ∃ log, history.vote envelope.sender term = some (envelope.recipient,log)
  | .appendEntries term prevLogIndex prevLogTerm entries leaderCommit =>
    history.owner term = some envelope.sender ∧
      Batch (history.line term) prevLogIndex prevLogTerm entries ∧
      history.told term leaderCommit
  | .appendEntriesResponse term true matchIndex _ _ =>
    history.acked envelope.sender term matchIndex ∧ history.accepted envelope.sender term matchIndex
  | .installSnapshot term snapshot =>
    history.owner term = some envelope.sender ∧ history.shipped term snapshot.info.lastIndex ∧
      Folds M bootstrap guards (history.line term) snapshot
  | .installSnapshotResponse term lastIndex => history.acked envelope.sender term lastIndex
  | _ => True

/-- The abstract records say what the replica has. -/
structure Tracks (history : History) (peer : PeerId) (node : RaftNode M) : Prop where
  named : node.config.id = peer
  term : history.term peer = node.hard.term
  role : history.role peer = standing node.role
  vote : (history.vote peer node.hard.term).map Prod.fst = node.hard.votedFor
  log : Mirrors (history.log peer) (history.floor peer) node.log
  folds : ∀ snapshot, node.log.snapshot = some snapshot →
    Folds M bootstrap guards (history.log peer) snapshot
  commit : history.commit peer = node.commitIndex
  applied : history.applied peer = node.lastApplied
  member : node.membership = Membership.fromEntries ⟨bootstrap⟩ (history.log peer)
  tally : node.role = .candidate → ∀ voter, node.votes.get voter = some true →
    ∃ log, history.vote voter node.hard.term = some (peer,log)
  ready : node.role = .preCandidate → node.membership.contains peer = true
  credit : node.role = .leader → ∀ voter held, voter ≠ peer → node.progress.get voter = some held →
      held.matchIndex = 0 ∨ history.acked voter node.hard.term held.matchIndex
  durable : guards.durable → StateMachine.appliedIndex node.machine ≤ node.lastApplied
  whole : guards.whole → node.config.snapshotThreshold = 0 ∧ node.log.snapshot = none

/-- A replica in the middle of an operation, with what it has queued so far. -/
structure Pursues (action : Action) (peer : PeerId) (moment : Moment M) (history : History) :
    Prop where
  tracks : Tracks M bootstrap guards history peer moment.node
  outbox : ∀ envelope ∈ moment.node.outbox, Sent M bootstrap guards history envelope
  handed : ∀ index entry, (index,entry) ∈ moment.node.handed → history.handed peer index entry
  merged : moment.merged = true → ∀ to_ envelope term prevLogIndex prevLogTerm entries leaderCommit,
    action = .deliver to_ envelope →
    envelope.message = .appendEntries term prevLogIndex prevLogTerm entries leaderCommit →
      history.acked peer term (prevLogIndex + entries.length) ∧
        history.accepted peer term (prevLogIndex + entries.length)

/-- What the restrictions ask of an action on a replica, in the state it finds
the replica in. -/
structure Legal (action : Action) (start : RaftNode M) : Prop where
  below : start.hard.term < u64Max
  fixed : guards.fixed → ∀ peer change, action ≠ .proposeMembership peer change
  whole : guards.whole → ∀ peer, action ≠ .takeSnapshot peer
  install : guards.install → ¬ guards.whole →
    ∀ peer envelope term snapshot, action = .deliver peer envelope →
    envelope.message = .installSnapshot term snapshot → start.hard.term ≤ term →
    start.commitIndex < snapshot.info.lastIndex → start.log.lastIndex ≤ snapshot.info.lastIndex ∨
        ∃ held, held ≠ snapshot.info.lastTerm ∧ start.log.termAt snapshot.info.lastIndex = some held
  report : guards.report → ¬ guards.whole →
    ∀ peer envelope term snapshot, action = .deliver peer envelope →
    envelope.message = .installSnapshot term snapshot → start.hard.term ≤ term →
    snapshot.info.lastIndex ≤ start.commitIndex →
      start.log.lastIndex ≤ start.commitIndex ∨ start.log.lastTerm = term
  reconfigure : guards.reconfigure → ∀ peer change, action = .proposeMembership peer change →
    start.role = .leader → start.isReady = true ∧
        ∀ entry ∈ start.log.entries, entry.isConfig = true → entry.index ≤ start.commitIndex

end Relation

/-! ### Growing records -/

section Growth

variable {M : Type} [StateMachine M] {bootstrap : OrderedSet PeerId} {guards : Guards}
  {before after : History} {snapshot : Snapshot} {note : Envelope}

theorem Folds.of_take {line other : List LogEntry} (folds : Folds M bootstrap guards line snapshot)
    (same : other.take snapshot.info.lastIndex = line.take snapshot.info.lastIndex) :
    Folds M bootstrap guards other snapshot := by
  refine ⟨folds.positive,?_,?_,folds.source⟩
  · rw [← historyTerm_take (Nat.le_refl _),same,historyTerm_take (Nat.le_refl _)]
    exact folds.known
  · rw [same]
    exact folds.member

theorem Folds.mono {line longer : List LogEntry}
    (folds : Folds M bootstrap guards line snapshot) (within : line <+: longer) :
    Folds M bootstrap guards longer snapshot :=
  folds.of_take (take_eq_of_isPrefix within (historyTerm_le folds.known))

/-- What the store says of the configuration is what the history says. -/
theorem Mirrors.fromEntries {line : List LogEntry} {floor : Nat} {log : MemoryLog}
    (mirrors : Mirrors line floor log)
    (folds : ∀ snapshot, log.snapshot = some snapshot → Folds M bootstrap guards line snapshot) :
    Membership.fromEntries (log.baseMembership ⟨bootstrap⟩) log.entries =
      Membership.fromEntries ⟨bootstrap⟩ line := by
  unfold MemoryLog.baseMembership MemoryLog.snapshotMeta
  cases held : log.snapshot with
  | none =>
    rw [mirrors.entries,mirrors.floor_of_none held]
    rfl
  | some snapshot =>
    change Membership.fromEntries snapshot.info.membership log.entries = _
    rw [(folds snapshot held).member,mirrors.entries,← mirrors.floor_of_some held,
      ← fromEntries_append,take_append_drop]

theorem Sent.mono (grown : Extends before after)
    (sent : Sent M bootstrap guards before note) : Sent M bootstrap guards after note := by
  unfold Sent at *
  cases message : note.message with
  | voteRequest =>
    rw [message] at sent
    obtain ⟨base,stood,rest⟩ := sent
    exact ⟨base,grown.campaign _ _ _ stood,rest⟩
  | voteResponse term granted =>
    rw [message] at sent
    cases granted with
    | false => exact sent
    | true =>
      obtain ⟨log,voted⟩ := sent
      exact ⟨log,grown.vote _ _ _ voted⟩
  | appendEntries term =>
    rw [message] at sent
    obtain ⟨owned,batch,told⟩ := sent
    exact ⟨grown.owner _ _ owned,batch.mono (grown.line term),grown.told _ _ told⟩
  | appendEntriesResponse term success =>
    rw [message] at sent
    cases success with
    | false => exact sent
    | true => exact ⟨grown.acked _ _ _ sent.1,grown.accepted _ _ _ sent.2⟩
  | installSnapshot term =>
    rw [message] at sent
    obtain ⟨owned,shipped,folds⟩ := sent
    exact ⟨grown.owner _ _ owned,grown.shipped _ _ shipped,folds.mono (grown.line term)⟩
  | installSnapshotResponse =>
    rw [message] at sent
    exact grown.acked _ _ _ sent
  | preVoteRequest | preVoteResponse | timeoutNow => trivial

theorem Acknowledges.acked {term index : Nat} (acknowledges : Acknowledges term note.message index)
    (sent : Sent M bootstrap guards before note) : before.acked note.sender term index := by
  unfold Sent at sent
  generalize note.message = message at acknowledges sent
  cases acknowledges with
  | append => exact sent.1
  | install => exact sent

theorem Tracks.frame {other : PeerId} {node : RaftNode M}
    (grown : Extends before after) (unmoved : Unmoved other before after)
    (tracks : Tracks M bootstrap guards before other node) :
    Tracks M bootstrap guards after other node where
  named := tracks.named
  term := unmoved.term.trans tracks.term
  role := unmoved.role.trans tracks.role
  vote := by
    rw [unmoved.vote]
    exact tracks.vote
  log := by
    rw [unmoved.log,unmoved.floor]
    exact tracks.log
  folds := by
    rw [unmoved.log]
    exact tracks.folds
  commit := unmoved.commit.trans tracks.commit
  applied := unmoved.applied.trans tracks.applied
  member := by
    rw [unmoved.log]
    exact tracks.member
  tally := fun role voter counted => by
    obtain ⟨log,voted⟩ := tracks.tally role voter counted
    exact ⟨log,grown.vote _ _ _ voted⟩
  ready := tracks.ready
  credit := fun role voter held apart found =>
    (tracks.credit role voter held apart found).imp_right fun acked =>
      grown.acked _ _ _ acked
  durable := tracks.durable
  whole := tracks.whole

end Growth

/-- As many items reach the k-th largest as its position says. -/
theorem le_countP_of_insertionSort {items : List Nat} {spot value : Nat}
    (found : (items.insertionSort (· ≥ ·))[spot]? = some value) :
    spot + 1 ≤ items.countP (fun item => decide (value ≤ item)) := by
  have sorted := pairwise_insertionSort (· ≥ ·) items
  obtain ⟨_,same⟩ := List.getElem?_eq_some_iff.mp found
  rw [← (perm_insertionSort (· ≥ ·) items).countP_eq]
  have front : ((items.insertionSort (· ≥ ·)).take (spot + 1)).countP
      (fun item => decide (value ≤ item)) = spot + 1 := by
    rw [List.countP_eq_length.mpr,length_take]
    · omega
    · intro _ member
      obtain ⟨place,low,rfl⟩ := mem_iff_getElem.mp member
      rw [length_take] at low
      rw [List.getElem_take,decide_eq_true_eq,← same]
      rcases Nat.lt_or_eq_of_le (show place ≤ spot by omega) with before | at_
      · exact pairwise_iff_getElem.mp sorted place spot _ _ before
      · subst at_
        exact Nat.le_refl _
  rw [← front]
  exact (take_sublist _ _).countP_le

theorem Membership.apply_overlapping {membership changed : Membership} {change : MembershipChange}
    (applied : membership.apply change = .ok changed) :
    Overlapping membership.voters.toFinset changed.voters.toFinset := by
  cases change with
  | add =>
    simp only [apply] at applied
    split at applied
    · cases applied
    · cases applied
      rw [toFinset_insert]
      exact Overlapping.insert _ _
  | remove =>
    simp only [apply] at applied
    split at applied
    · rename_i listed
      split at applied
      · cases applied
      · cases applied
        rw [toFinset_remove]
        refine Overlapping.erase _ _ ?_
        exact (mem_toFinset _ _).mpr ((contains_iff _ _).mp listed)
    · cases applied

/-! ### Single steps -/

/-- The replica's next state is tracked after some transitions of its own, and
a fact about the records then holds. -/
def Followed (M : Type) [StateMachine M] (bootstrap : OrderedSet PeerId) (guards : Guards)
    (history : History) (peer : PeerId) (node : RaftNode M) (extra : History → Prop) : Prop :=
  ∃ after, Moves (setting bootstrap) guards peer history after ∧
    Tracks M bootstrap guards after peer node ∧ extra after

section Steps

variable {M : Type} [StateMachine M] {bootstrap : OrderedSet PeerId} {guards : Guards}
  {trail : History} {peer : PeerId} {node : RaftNode M} {extra : History → Prop}

theorem Followed.one {after : History} (moved : Step (setting bootstrap) guards peer trail after)
    (tracks : Tracks M bootstrap guards after peer node) (holds : extra after) :
    Followed M bootstrap guards trail peer node extra :=
  ⟨after,Relation.ReflTransGen.single moved,tracks,holds⟩

theorem Followed.none
    (tracks : Tracks M bootstrap guards trail peer node) (holds : extra trail) :
    Followed M bootstrap guards trail peer node extra :=
  ⟨trail,Relation.ReflTransGen.refl,tracks,holds⟩

theorem fromEntries_fixed (inv : Inv (setting bootstrap) guards trail) (fixed : guards.fixed)
    {log : List LogEntry} (rooted : (setting bootstrap).Rooted trail.line log) :
    Membership.fromEntries ⟨bootstrap⟩ log = ⟨bootstrap⟩ := by
  refine fromEntries_of_none fun entry member => ?_
  exact Option.map_eq_none_iff.mp (inv.chain.unchanging_of_rooted fixed rooted entry member)

namespace Tracks

section

variable (tracks : Tracks M bootstrap guards trail peer node)
include tracks

theorem configuration :
    (setting bootstrap).configuration (trail.log peer) = node.membership.voters.toFinset := by
  rw [configuration_eq,← tracks.member]

theorem mem_configuration {other : PeerId} (voter : node.membership.contains other = true) :
    other ∈ (setting bootstrap).configuration (trail.log peer) := by
  rw [tracks.configuration]
  exact (mem_toFinset _ _).mpr ((contains_iff _ _).mp voter)

theorem resign (progress : OrderedMap PeerId Progress) (votes : OrderedMap PeerId Bool)
    {role : Role} (idle : standing role = .idle)
    (votes_ : role = .preCandidate → node.membership.contains peer = true) :
    Followed M bootstrap guards trail peer
      { node with role := role, progress := progress, votes := votes } fun _ => True := by
  refine .one (.resign trail) ?_ trivial
  refine { tracks with
    role := (update_self _ _ _).trans idle.symm
    tally := fun same => ?_
    ready := votes_
    credit := fun same => ?_ }
  · change role = .candidate at same
    rw [same] at idle
    cases idle
  · change role = .leader at same
    rw [same] at idle
    cases idle

variable {note : Envelope}

theorem count {granted : Bool} (sent : Sent M bootstrap guards trail note)
    (addressee : note.recipient = peer) (expected : node.role = .candidate ∧
        note.message = .voteResponse node.hard.term granted ∨ node.role = .preCandidate) :
    Tracks M bootstrap guards trail peer
      { node with votes := node.votes.insert note.sender granted } := by
  refine { tracks with tally := fun role voter counted => ?_ }
  rcases OrderedMap.insert_some _ counted with ⟨rfl,rfl⟩ | ⟨_,counted⟩
  · rcases expected with ⟨_,message⟩ | waiting
    · unfold Sent at sent
      rw [message,addressee] at sent
      exact sent
    · rw [waiting] at role
      cases role
  · exact tracks.tally role voter counted

theorem leading (leads : node.role = .leader) : trail.role peer = .leading := by
  rw [tracks.role,leads]
  rfl

theorem campaigning (stands : node.role = .candidate) : trail.role peer = .candidate := by
  rw [tracks.role,stands]
  rfl

theorem matchedMajority {candidate : Nat}
    (found : (node.matched.insertionSort (· ≥ ·))[node.membership.quorum - 1]? = some candidate) :
    ∃ quorum, Majority quorum ((setting bootstrap).configuration (trail.log peer)) ∧
      ∀ voter ∈ quorum, voter = peer ∧ candidate ≤ node.log.lastIndex ∨
        voter ≠ peer ∧ (candidate = 0 ∨
          ∃ held, node.progress.get voter = some held ∧ candidate ≤ held.matchIndex) := by
  have counted := le_countP_of_insertionSort found
  unfold matched at counted
  rw [List.countP_map,List.countP_eq_length_filter] at counted
  refine ⟨(node.membership.voters.elems.filter
    ((fun item => decide (candidate ≤ item)) ∘ node.matchOf)).toFinset,⟨?_,?_⟩,?_⟩
  · intro _ member
    rw [tracks.configuration]
    exact (mem_toFinset _ _).mpr (mem_filter.mp (mem_toFinset.mp member)).1
  · rw [List.toFinset_card_of_nodup (node.membership.voters.nodup.filter _),tracks.configuration,
      OrderedSet.card_toFinset]
    unfold Membership.quorum at counted
    omega
  · intro _ member
    have reaches := (mem_filter.mp (mem_toFinset.mp member)).2
    simp only [Function.comp_apply,decide_eq_true_eq,matchOf,tracks.named] at reaches
    split at reaches
    · rename_i own
      exact .inl ⟨own,reaches⟩
    · rename_i other
      refine .inr ⟨other,?_⟩
      split at reaches
      · rename_i held known
        exact .inr ⟨held,known,reaches⟩
      · exact .inl (Nat.le_zero.mp reaches)

theorem paced {progress : OrderedMap PeerId Progress}
    (paced : ∀ peer, (progress.get peer).map Progress.matchIndex =
      (node.progress.get peer).map Progress.matchIndex) :
    Tracks M bootstrap guards trail peer { node with progress := progress } := by
  refine { tracks with credit := fun role voter held other known => ?_ }
  have same := paced voter
  rw [known] at same
  obtain ⟨old,found,matched⟩ := Option.map_eq_some_iff.mp same.symm
  rw [← matched]
  exact tracks.credit role voter old other found

theorem credited {index : Nat} (sent : Sent M bootstrap guards trail note)
    (acknowledges : Acknowledges node.hard.term note.message index) :
    Tracks M bootstrap guards trail peer
      { node with
        progress := node.progress.adjust note.sender fun held => held.acknowledge index } := by
  have acked := acknowledges.acked sent
  refine { tracks with credit := fun role voter held other known => ?_ }
  rw [OrderedMap.get_adjust] at known
  split at known
  · rename_i same
    subst same
    obtain ⟨old,found,rfl⟩ := Option.map_eq_some_iff.mp known
    change (if old.matchIndex < index then index else old.matchIndex) = 0 ∨
      trail.acked _ _ (if old.matchIndex < index then index else old.matchIndex)
    split
    · exact .inr acked
    · exact tracks.credit role note.sender old other found
  · exact tracks.credit role voter held other known

theorem hand {entry : LogEntry} (ahead : node.lastApplied < node.commitIndex)
    (found : node.log.entry (node.lastApplied + 1) = some entry) :
    Followed M bootstrap guards trail peer
      { node with handed := node.handed ++ [(node.lastApplied + 1,entry)] }
      fun after => after.handed peer (node.lastApplied + 1) entry := by
  obtain ⟨_,held⟩ := tracks.log.entry_some found
  obtain ⟨within,counted⟩ := snoc_of_getElem? held
  refine .one (.hand trail _ entry ?_ within (counted.trans tracks.applied.symm)) ?_ ?_
  · rw [tracks.applied,tracks.commit]
    exact ahead
  · exact { tracks with }
  · exact .inr ⟨rfl,by rw [tracks.applied],rfl⟩

/-- A failed call never makes the machine claim more. -/
theorem strained {machine : M} (bounded : guards.durable →
      StateMachine.appliedIndex machine ≤ StateMachine.appliedIndex node.machine) :
    Tracks M bootstrap guards trail peer { node with machine := machine } :=
  { tracks with durable := fun durable => (bounded durable).trans (tracks.durable durable) }

/-- A follower vouches for an index of its folded log. -/
theorem vouch (owned : trail.owner node.hard.term ≠ none) (outbox : List Envelope) :
    Followed M bootstrap guards trail peer { node with outbox := outbox } fun after =>
      after.acked peer node.hard.term node.log.boundary ∧
        after.accepted peer node.hard.term node.log.boundary := by
  have boundary := tracks.log.boundary
  have vouched : Step (setting bootstrap) guards peer trail _ :=
    .ack trail node.log.boundary (by rw [tracks.term]; exact owned) (.inl (by omega))
  refine ⟨_,(Relation.ReflTransGen.single vouched).tail
    (.permit _ node.log.boundary (.inl (Nat.le_of_eq boundary))),?_,?_,?_⟩
  · refine { tracks with credit := fun role voter held other known => ?_ }
    exact (tracks.credit role voter held other known).imp_right .inl
  · exact .inr ⟨rfl,tracks.term.symm,rfl⟩
  · exact .inr ⟨rfl,tracks.term.symm,rfl⟩

variable (dense : node.log.Contiguous)
include dense

/-- The code's comparison of logs is the voting rule. -/
theorem upToDate {base : List LogEntry}
    (newer : node.isLogUpToDate base.length ((setting bootstrap).lastTerm base) = true) :
    (setting bootstrap).UpToDate base (trail.log peer) := by
  unfold isLogUpToDate at newer
  rw [tracks.log.lastTerm bootstrap,tracks.log.lastIndex dense] at newer
  split at newer
  · exact .inl (of_decide_eq_true newer)
  · rename_i same
    exact .inr ⟨(not_not.mp same).symm,of_decide_eq_true newer⟩

theorem grant {lastLogIndex lastLogTerm : Nat}
    (sent : Sent M bootstrap guards trail note) (addressee : note.recipient = peer)
    (message : note.message = .voteRequest node.hard.term lastLogIndex lastLogTerm)
    (available : (node.hard.canVote || node.hard.hasVotedFor note.sender) = true)
    (newer : node.isLogUpToDate lastLogIndex lastLogTerm = true) :
    Followed M bootstrap guards trail peer
      (node.saveHardState node.hard.term (some note.sender)) fun _ => True := by
  unfold Sent at sent
  rw [message] at sent
  obtain ⟨base,stood,rfl,rfl,member⟩ := sent
  rw [addressee] at member
  have vote := tracks.vote
  rw [saveHardState_eq]
  cases voted : trail.vote peer node.hard.term with
  | some =>
    -- The vote is already on record, so the saved state is the one held.
    rw [voted] at vote
    have same : node.hard.votedFor = some note.sender := by
      rcases (Bool.or_eq_true _ _).mp available with free | mine
      · rw [HardState.canVote,← vote] at free
        cases free
      · exact of_decide_eq_true mine
    refine .none ?_ trivial
    refine { tracks with vote := ?_, log := tracks.log.hardState _ }
    rw [voted,vote]
    exact same
  | none =>
    refine .one (.cast trail note.sender base ?_ ?_ (tracks.upToDate dense newer)
      member) ?_ trivial
    · rw [tracks.term]
      exact voted
    · rw [tracks.term]
      exact stood
    · refine { tracks with vote := ?_, log := tracks.log.hardState _, tally := ?_ }
      · change (enter trail.vote peer (trail.term peer) _ peer node.hard.term).map _ = _
        rw [tracks.term,enter_self]
        rfl
      · intro role voter counted
        obtain ⟨log,held⟩ := tracks.tally role voter counted
        refine ⟨log,enter_kept ?_ held⟩
        rw [tracks.term]
        exact voted

/-- What the install restriction says about the histories. -/
theorem replaceable {line : List LogEntry} {snapshot : Snapshot}
    (folds : Folds M bootstrap guards line snapshot)
    (guarded : node.log.lastIndex ≤ snapshot.info.lastIndex ∨
      ∃ held, held ≠ snapshot.info.lastTerm ∧ node.log.termAt snapshot.info.lastIndex = some held) :
    trail.floor peer ≤ snapshot.info.lastIndex ∧
      (line.take snapshot.info.lastIndex <+: trail.log peer →
        (trail.log peer).length ≤ snapshot.info.lastIndex) := by
  rw [tracks.log.lastIndex dense] at guarded
  have fits := tracks.log.fits
  rcases guarded with short | ⟨held,unlike,found⟩
  · exact ⟨by omega,fun _ => short⟩
  · obtain ⟨known,past⟩ := tracks.log.termAt_some found
    refine ⟨past.resolve_left folds.positive,fun within => ?_⟩
    have length : (line.take snapshot.info.lastIndex).length = snapshot.info.lastIndex := by
      have := historyTerm_le folds.known
      rw [length_take]
      omega
    rw [← historyTerm_prefix within (by omega),historyTerm_take (Nat.le_refl _),folds.known]
      at known
    exact absurd (Option.some.inj known).symm unlike

/-- A follower reports the end of its log for a snapshot it already covers. -/
theorem report (owned : trail.owner node.hard.term ≠ none)
    (guarded : guards.report → node.log.lastIndex ≤ node.commitIndex ∨
      node.log.lastTerm = node.hard.term) (outbox : List Envelope) :
    Followed M bootstrap guards trail peer { node with outbox := outbox } fun after =>
      after.acked peer node.hard.term node.log.lastIndex := by
  have lastIndex := tracks.log.lastIndex dense
  refine .one (.ack trail node.log.lastIndex (by rw [tracks.term]; exact owned)
    (.inr (.inr ⟨lastIndex,fun restricted => ?_⟩))) ?_ (.inr ⟨rfl,tracks.term.symm,rfl⟩)
  · rw [← lastIndex,tracks.commit,tracks.term,← tracks.log.lastTerm bootstrap]
    exact guarded restricted
  · refine { tracks with credit := fun role voter held other known => ?_ }
    exact (tracks.credit role voter held other known).imp_right .inl

theorem batch {prev prevTerm maxEntries : Nat}
    {entries : List LogEntry} (found : node.log.termAt prev = some prevTerm)
    (read : node.log.entriesFrom (prev + 1) maxEntries = .ok entries) :
    Batch (trail.log peer) prev prevTerm entries := by
  obtain ⟨low,same,_⟩ := dense.entriesFrom_numbered read
  obtain ⟨known,_⟩ := tracks.log.termAt_some found
  have fits := historyTerm_le known
  rw [tracks.log.entries,tracks.log.boundary,drop_drop] at same
  rw [tracks.log.boundary] at low
  have whole : trail.floor peer + (prev - trail.floor peer) = prev := by omega
  rw [whole] at same
  refine ⟨?_,?_,known⟩
  · rw [same,length_take,length_drop]
    omega
  · rw [same,length_take,take_eq_take_iff]
    simp

end

/-- What a follower has established when it merges a message of its leader. -/
structure Matches (history : History) (peer : PeerId) (node : RaftNode M)
    (prevLogIndex prevLogTerm : Nat) (entries : List LogEntry) : Prop where
  follower : node.role = .follower
  idle : history.role peer = .idle
  owned : history.owner node.hard.term ≠ none
  batch : Batch (history.line node.hard.term) prevLogIndex prevLogTerm entries
  numbered : Numbered prevLogIndex entries
  low : history.floor peer ≤ prevLogIndex
  high : prevLogIndex ≤ (history.log peer).length
  agrees : (node.log.termAt prevLogIndex).getD 0 = prevLogTerm

variable (tracks : Tracks M bootstrap guards trail peer node)
  (inv : Inv (setting bootstrap) guards trail)
include tracks inv

variable {term prev prevTerm : Nat} {action : Action} {start : RaftNode M} {machine : M}
  {entries : List LogEntry} {membership : Membership} {pending : Option Nat}

theorem vote_later (later : node.hard.term < term) : trail.vote peer term = none := by
  cases voted : trail.vote peer term with
  | none => rfl
  | some ballot =>
    have := inv.election.vote_le peer term ballot voted
    have := tracks.term
    omega

theorem campaign_later (later : node.hard.term < term) : trail.campaign peer term = none := by
  cases stood : trail.campaign peer term with
  | none => rfl
  | some base =>
    have := (inv.election.campaign_le peer term base stood).2
    have := tracks.term
    omega

theorem adopt (higher : node.hard.term < term) : Followed M bootstrap guards trail peer
      { node.saveHardState term none with
        role := .follower
        progress := .empty
        votes := .empty } fun _ => True := by
  have later : trail.term peer < term := by
    rw [tracks.term]
    exact higher
  rw [saveHardState_eq]
  refine .one (.bump trail term later) ?_ trivial
  refine { tracks with
    term := update_self _ _ _
    role := update_self _ _ _
    vote := ?_
    log := tracks.log.hardState _
    tally := nofun
    ready := nofun
    credit := nofun }
  rw [tracks.vote_later inv higher]
  rfl

theorem stand (below : node.hard.term < u64Max)
    (voter : node.membership.contains node.config.id = true ∨ node.role = .preCandidate) :
    Followed M bootstrap guards trail peer
      { node.saveHardState (Term.next node.hard.term) (some node.config.id) with
        role := .candidate
        votes := OrderedMap.empty.insert node.config.id true } fun _ => True := by
  have member : peer ∈ (setting bootstrap).configuration (trail.log peer) := by
    refine tracks.mem_configuration ?_
    rcases voter with listed | waiting
    · rw [← tracks.named]
      exact listed
    · exact tracks.ready waiting
  have next : trail.term peer + 1 = node.hard.term + 1 := by rw [tracks.term]
  have voted : enter trail.vote peer (trail.term peer + 1) (peer,trail.log peer) peer
      (node.hard.term + 1) = some (peer,trail.log peer) := by rw [next,enter_self]
  rw [saveHardState_eq,Term.next_eq below,tracks.named]
  refine .one (.stand trail ?_ ?_ member) ?_ trivial
  · rw [next]
    exact tracks.vote_later inv (Nat.lt_succ_self _)
  · rw [next]
    exact tracks.campaign_later inv (Nat.lt_succ_self _)
  · refine { tracks with
      term := (update_self _ _ _).trans next
      role := update_self _ _ _
      vote := congrArg (Option.map Prod.fst) voted
      log := tracks.log.hardState _
      tally := fun _ voter counted => ?_
      ready := nofun
      credit := nofun }
    rcases OrderedMap.insert_some _ counted with ⟨rfl,_⟩ | ⟨_,counted⟩
    · exact ⟨trail.log peer,voted⟩
    · cases counted

theorem majority (stands : node.role = .candidate)
    (most : node.membership.isQuorum (node.votes.values.filter id).length = true) :
    ∃ quorum, Majority quorum ((setting bootstrap).configuration (trail.log peer)) ∧
      ∀ voter ∈ quorum, ∃ log, trail.vote voter (trail.term peer) = some (peer,log) := by
  obtain ⟨quorum,_,held⟩ := node.votes.exists_keys_of_values id
  have votes : ∀ voter ∈ quorum, ∃ log,
      trail.vote voter (trail.term peer) = some (peer,log) := by
    intro voter member
    obtain ⟨_,found,yes⟩ := held voter member
    cases yes
    rw [tracks.term]
    exact tracks.tally stands voter found
  refine ⟨quorum,⟨fun voter member => ?_,?_⟩,votes⟩
  · obtain ⟨log,voted⟩ := votes voter member
    obtain ⟨_,stood,_,listed⟩ := inv.election.ballot voter _ peer log voted
    have standingNow := tracks.campaigning stands
    have own := (inv.election.candidate peer standingNow).1
    rw [own] at stood
    cases stood
    exact listed
  · unfold isQuorum at most
    have enough := of_decide_eq_true (Bool.and_eq_true_iff.mp most).2
    unfold Membership.quorum at enough
    rw [tracks.configuration,OrderedSet.card_toFinset]
    omega

theorem win (mode : guards.fixed ∨ guards.whole ∧ guards.Strict) (stands : node.role = .candidate)
    (most : node.membership.isQuorum (node.votes.values.filter id).length = true) :
    Followed M bootstrap guards trail peer node.elected fun _ => True := by
  obtain ⟨quorum,majority,votes⟩ := tracks.majority inv stands most
  have standingNow := tracks.campaigning stands
  have unowned := inv.unowned (mode.imp_right And.right) standingNow majority votes
  refine .one (.elect trail quorum standingNow unowned majority votes) ?_ trivial
  refine { tracks with
    role := update_self _ _ _
    tally := nofun
    ready := nofun
    credit := fun _ voter held other found => ?_ }
  rcases resetProgress_get found (by rw [← tracks.named] at other; exact other) with
    kept | ⟨_,fresh⟩
  · cases kept
  · rw [fresh]
    exact .inl rfl

theorem line (leads : node.role = .leader) : trail.owner node.hard.term = some peer ∧
      trail.line node.hard.term = trail.log peer := by
  rw [← tracks.term]
  exact inv.election.leading peer (tracks.leading leads)

theorem own_commit (leads : node.role = .leader) (ready : node.isReady = true) :
    ∃ front last, front ++ [last] <+: trail.log peer ∧ front.length + 1 = trail.commit peer ∧
      (setting bootstrap).termOf last = trail.term peer := by
  have held := of_decide_eq_true (Bool.and_eq_true_iff.mp ready).2
  have known := (tracks.log.termAt_some held).1
  have pos : node.commitIndex ≠ 0 := by
    intro zero
    have owned := inv.election.owner_positive (tracks.line inv leads).1
    rw [zero] at known
    have none : 0 = node.hard.term := Option.some.inj known
    omega
  obtain ⟨front,last,within,counted,same⟩ := historyTerm_snoc pos known
  refine ⟨front,last,within,?_,?_⟩
  · rw [tracks.commit]
    exact counted
  · rw [tracks.term]
    exact same

theorem apply (lawful : guards.durable → LawfulStateMachine M)
    (ahead : node.lastApplied < node.commitIndex)
    (done : ∀ entry, node.log.entry (node.lastApplied + 1) = some entry →
      trail.handed peer (node.lastApplied + 1) entry)
    (driven : machine = node.machine ∨ ∃ command reply,
      StateMachine.apply node.machine (node.lastApplied + 1) command = (machine,.ok reply)) :
    Followed M bootstrap guards trail peer
      { node with machine := machine, lastApplied := node.lastApplied + 1 } fun _ => True := by
  have applied := tracks.applied
  have floor := inv.floors.applied peer
  refine .one (.apply trail ?_ ?_) ?_ trivial
  · rw [applied,tracks.commit]
    exact ahead
  · intro inside
    obtain ⟨entry,held⟩ : ∃ entry, (trail.log peer)[trail.applied peer]? = some entry :=
      ⟨_,List.getElem?_eq_getElem inside⟩
    rw [← tracks.log.entry floor,applied] at held
    rw [applied]
    exact ⟨entry,done entry held⟩
  · refine { tracks with applied := ?_, durable := fun durable => ?_ }
    · simp only [update_self]
      rw [applied]
    · have before := tracks.durable durable
      change StateMachine.appliedIndex machine ≤ node.lastApplied + 1
      rcases driven with rfl | ⟨command,reply,outcome⟩
      · omega
      · have bounded := (lawful durable).apply_ok node.machine (node.lastApplied + 1) command reply
          (by rw [outcome])
        simp only [outcome] at bounded
        omega

theorem follows {sender : PeerId} (owned : trail.owner node.hard.term = some sender)
    (apart : sender ≠ peer) (role : node.role = .follower ∨ node.role = .leader) :
    node.role = .follower ∧ trail.role peer = .idle := by
  rcases role with follower | leads
  · refine ⟨follower,?_⟩
    rw [tracks.role,follower]
    rfl
  · have own := (tracks.line inv leads).1
    rw [owned] at own
    exact absurd (Option.some.inj own) apart

section

variable (sound : node.Sound) (peers : node.config.initialMembership = ⟨bootstrap⟩)
  (matches_ : Matches trail peer node prev prevTerm entries)
include sound peers matches_

/-- A follower copies its leader's line and vouches for what it copied. -/
theorem copy (same : membership = node.mergedMembership entries) :
    Followed M bootstrap guards trail peer
      { node with
        log := node.log.merged entries
        membership := membership
        pendingConfig := pending } fun after =>
      after.acked peer node.hard.term (prev + entries.length) ∧
        after.accepted peer node.hard.term (prev + entries.length) ∧
        after.told = trail.told ∧
        (after.line node.hard.term).take (prev + entries.length) <+: after.log peer := by
  obtain ⟨follower,idle,owned,batch,numbered,low,high,agrees⟩ := matches_
  have dense := sound.contiguous
  have term := tracks.term
  have rooted := inv.chain.rooted peer
  have lineRooted := inv.chain.rooted_line inv.election node.hard.term
  have mirrored := tracks.log.merged dense rooted lineRooted batch numbered low high agrees
  have kept : ∀ snapshot, node.log.snapshot = some snapshot → Folds M bootstrap guards
      (overwrite ((trail.line node.hard.term).take (prev + entries.length))
        (trail.log peer)) snapshot := by
    intro snapshot held
    refine (tracks.folds snapshot held).of_take
      (tracks.log.take_overwrite dense rooted lineRooted batch numbered low high agrees ?_)
    have edge := tracks.log.floor_of_some held
    omega
  have copied : Step (setting bootstrap) guards peer trail _ :=
    .accept trail (prev + entries.length) idle (by rw [term]; exact owned)
      (by rw [term]; exact batch.fits) (by omega)
  simp only [term] at copied
  have reaches : (trail.line node.hard.term).take (prev + entries.length) <+:
      overwrite ((trail.line node.hard.term).take (prev + entries.length))
        (trail.log peer) := prefix_overwrite _ _
  have vouched := (Relation.ReflTransGen.single copied).tail
    (.ack _ (prev + entries.length) (by simp only [term]; exact owned) (.inr (.inl (by
        simp only [term,update_self]
        exact ⟨reaches,batch.fits⟩))))
  have admitted := vouched.tail (.permit _ (prev + entries.length) (.inr (by
      simp only [term,update_self]
      exact ⟨reaches,batch.fits⟩)))
  refine ⟨_,admitted,?_,.inr ⟨rfl,term.symm,rfl⟩,.inr ⟨rfl,term.symm,rfl⟩,rfl,?_⟩
  · refine { tracks with
      log := ?_
      folds := ?_
      member := ?_
      tally := fun role => absurd (follower.symm.trans role) Role.noConfusion
      ready := fun role => absurd (follower.symm.trans role) Role.noConfusion
      credit := fun role => absurd (follower.symm.trans role) Role.noConfusion }
    · simp only [update_self]
      exact mirrored
    · simp only [update_self]
      exact kept
    · have merged := member_merged sound same
      rw [peers] at merged
      simp only [update_self]
      rw [merged,← mirrored.fromEntries kept]
      rfl
  · simp only [update_self]
    exact reaches

theorem accept {leaderCommit : Nat} (told : trail.told node.hard.term leaderCommit)
    (same : membership = node.mergedMembership entries) :
    Followed M bootstrap guards trail peer
      (node.accepted prev entries leaderCommit membership pending) fun after =>
        after.acked peer node.hard.term (prev + entries.length) ∧
          after.accepted peer node.hard.term (prev + entries.length) := by
  obtain ⟨middle,moves,tracked,acked,accepted,announced,reaches⟩ :=
    @copy _ _ _ _ _ _ _ tracks inv _ _ _ _ pending sound peers matches_ same
  have term : middle.term peer = node.hard.term := tracked.term
  unfold RaftNode.accepted
  by_cases behind : node.commitIndex < leaderCommit
  · simp only [if_pos behind]
    refine ⟨_,moves.tail (.learn middle (min leaderCommit (prev + entries.length))
      leaderCommit ?_ (Nat.min_le_left _ _) ?_ ?_),?_,acked,accepted⟩
    · rw [term,announced]
      exact told
    · rw [term]
      exact (take_prefix_take_left (Nat.min_le_right _ _)).trans reaches
    · rw [tracked.role]
      exact congrArg standing matches_.1
    · exact { tracked with commit := update_self _ _ _ }
  · simp only [if_neg behind]
    exact ⟨middle,moves,tracked,acked,accepted⟩

end

theorem install (lawful : guards.durable → LawfulStateMachine M) {snapshot : Snapshot}
    (follower : node.role = .follower) (idle : trail.role peer = .idle)
    (shipped : trail.shipped node.hard.term snapshot.info.lastIndex)
    (folds : Folds M bootstrap guards (trail.line node.hard.term) snapshot)
    (guarded : guards.install → trail.floor peer ≤ snapshot.info.lastIndex ∧
      ((trail.line node.hard.term).take snapshot.info.lastIndex <+: trail.log peer →
        (trail.log peer).length ≤ snapshot.info.lastIndex))
    (restored : StateMachine.restore node.machine snapshot.data = (machine,.ok ())) :
    Followed M bootstrap guards trail peer (node.installed snapshot machine) fun _ => True := by
  have term := tracks.term
  have installed : Step (setting bootstrap) guards peer trail _ :=
    .install trail snapshot.info.lastIndex idle (by rw [term]; exact shipped)
      (by rw [term]; exact historyTerm_le folds.known) (by rw [term]; exact guarded)
  simp only [term] at installed
  refine .one installed ?_ trivial
  refine { tracks with
    log := ?_
    folds := fun other held => ?_
    commit := update_self _ _ _
    applied := update_self _ _ _
    member := ?_
    tally := fun role => absurd (follower.symm.trans role) Role.noConfusion
    ready := fun role => absurd (follower.symm.trans role) Role.noConfusion
    credit := fun role => absurd (follower.symm.trans role) Role.noConfusion
    durable := fun durable => ?_
    whole := fun whole => absurd shipped (inv.floors.unshipped whole _ _) }
  · simp only [update_self]
    exact Mirrors.installed node.log folds.positive folds.known
  · cases held
    simp only [update_self]
    refine folds.of_take ?_
    rw [take_take,Nat.min_self]
  · simp only [update_self]
    exact folds.member
  · obtain ⟨source,read,bounded⟩ := folds.source
    have claimed := (lawful durable).restore_ok source node.machine snapshot.data read
      (by rw [restored])
    simp only [restored] at claimed
    exact claimed.trans (bounded durable)

variable (dense : node.log.Contiguous)
include dense

theorem reconfigure (leads : node.role = .leader)
    (uncompacted : node.log.snapshot = none) (ready : node.isReady = true)
    (done : ∀ entry ∈ node.log.entries, entry.isConfig = true → entry.index ≤ node.commitIndex) :
    (∃ front last, front ++ [last] <+: trail.log peer ∧ front.length + 1 = trail.commit peer ∧
        (setting bootstrap).termOf last = trail.term peer) ∧
      ∀ front change, front ++ [change] <+: trail.log peer →
        (setting bootstrap).votersOf change ≠ none → front.length + 1 ≤ trail.commit peer := by
  have boundary : node.log.boundary = 0 := by simp [MemoryLog.boundary,uncompacted]
  have floor : trail.floor peer = 0 := tracks.log.boundary.symm.trans boundary
  refine ⟨tracks.own_commit inv leads ready,?_⟩
  intro _ change within changes
  have entries := tracks.log.entries
  rw [floor,drop_zero] at entries
  have found := getElem?_of_snoc within
  rw [← entries] at found
  have index := dense _ change found
  have config : change.isConfig = true := by
    cases held : change.config with
    | none =>
      refine absurd ?_ changes
      change change.config.map _ = none
      rw [held]
      rfl
    | some =>
      unfold LogEntry.isConfig
      rw [held]
      rfl
  have bounded := done change (mem_of_getElem? found) config
  rw [tracks.commit]
  omega

theorem append (mode : guards.fixed ∨ guards.whole ∧ guards.Strict)
    (legal : Legal M guards action start) {payload : EntryPayload} (leads : node.role = .leader)
    (proposed : ∀ membership, payload = .config membership → node = start ∧
      ∃ peer change, action = .proposeMembership peer change ∧
        node.membership.apply change = .ok membership) :
    Followed M bootstrap guards trail peer (node.appended payload) fun _ => True := by
  obtain ⟨_,same,credited⟩ := appended_eq node payload
  rw [same]
  have unchanged : guards.fixed → ∀ membership, payload ≠ .config membership := by
    intro fixed membership config
    obtain ⟨_,other,change,asked,_⟩ := proposed membership config
    exact legal.fixed fixed other change asked
  generalize made : LogEntry.mk node.hard.term _ payload = entry
  have ownTerm : entry.term = node.hard.term := by rw [← made]
  have ownPayload : entry.payload = payload := by rw [← made]
  have configured : ∀ membership, entry.config = some membership →
      payload = .config membership := by
    intro _ config
    unfold LogEntry.config at config
    rw [ownPayload] at config
    cases payload <;> cases config
    rfl
  refine .one (.append trail entry (tracks.leading leads) (ownTerm.trans tracks.term.symm) ?_ ?_)
    ?_ trivial
  · intro fixed
    cases config : entry.config with
    | none =>
      change entry.config.map _ = none
      rw [config]
      rfl
    | some membership => exact absurd (configured membership config) (unchanged fixed membership)
  · intro _ changes
    obtain ⟨membership,config,rfl⟩ := Option.map_eq_some_iff.mp changes
    obtain ⟨rfl,other,change,asked,applied⟩ := proposed membership (configured _ config)
    refine ⟨?_,fun restricted => ?_⟩
    · rw [tracks.configuration]
      exact apply_overlapping applied
    · rcases mode with fixed | ⟨whole,_⟩
      · exact absurd (configured membership config) (unchanged fixed membership)
      · obtain ⟨ready,done⟩ := legal.reconfigure restricted other change asked leads
        exact tracks.reconfigure inv dense leads (tracks.whole whole).2 ready done
  · have longer : trail.log peer <+: trail.log peer ++ [entry] := prefix_append _ _
    refine { tracks with
      log := ?_
      folds := fun snapshot held => ?_
      member := ?_
      ready := fun role => ?_
      credit := fun role voter held other found => ?_ }
    · simp only [update_self]
      exact tracks.log.append entry
    · simp only [update_self]
      exact (tracks.folds snapshot held).mono longer
    · simp only [update_self]
      rw [fromEntries_append,← tracks.member]
      rfl
    · change node.role = .preCandidate at role
      rw [leads] at role
      cases role
    · rcases credited voter held (by rw [tracks.named]; exact other) found with kept | ⟨_,fresh⟩
      · exact tracks.credit role voter held other kept
      · rw [fresh]
        exact .inl rfl

theorem advance {candidate : Nat} (leads : node.role = .leader)
    (found : (node.matched.insertionSort (· ≥ ·))[node.membership.quorum - 1]? = some candidate)
    (ahead : node.commitIndex < candidate)
    (ownTerm : node.log.termAt candidate = some node.hard.term) :
    Followed M bootstrap guards trail peer { node with commitIndex := candidate }
      fun _ => True := by
  obtain ⟨owned,line⟩ := tracks.line inv leads
  obtain ⟨quorum,majority,reaching⟩ := tracks.matchedMajority found
  obtain ⟨front,last,within,rfl,same⟩ :=
    historyTerm_snoc (by omega) (tracks.log.termAt_some ownTerm).1
  -- The leader vouches for its own log before it counts.
  have vouched : Step (setting bootstrap) guards peer trail _ :=
    .ack trail (trail.log peer).length (by rw [tracks.term,owned]; simp) (.inr (.inl (by
        rw [tracks.term,line]
        exact ⟨by rw [take_length],Nat.le_refl _⟩)))
  refine ⟨_,(Relation.ReflTransGen.single vouched).tail
    (.decide _ quorum front last (tracks.leading leads) within (same.trans tracks.term.symm)
      majority ?_ ?_),?_,trivial⟩
  · intro voter member
    rcases reaching voter member with ⟨own,reached⟩ | ⟨other,none | ⟨held,known,reached⟩⟩
    · rw [tracks.log.lastIndex dense] at reached
      exact ⟨_,reached,.inr ⟨own,rfl,rfl⟩⟩
    · omega
    · refine ⟨held.matchIndex,reached,.inl ?_⟩
      rw [tracks.term]
      exact (tracks.credit leads voter held other known).resolve_left (by omega)
  · change trail.commit peer ≤ front.length
    rw [tracks.commit]
    exact Nat.le_of_lt_succ ahead
  · refine { tracks with
      commit := update_self _ _ _
      credit := fun role voter held other known => ?_ }
    exact (tracks.credit role voter held other known).imp_right .inl

theorem capture (mode : guards.fixed ∨ guards.whole ∧ guards.Strict) (legal : Legal M guards action start)
    {lastTerm : Nat} {data : Bytes} {log : MemoryLog} {taken : List Capture}
    (pos : node.lastApplied ≠ 0) (found : node.log.termAt node.lastApplied = some lastTerm)
    (read : StateMachine.snapshot node.machine = .ok data)
    (asked : node.config.snapshotThreshold ≠ 0 ∨ ∃ peer, action = .takeSnapshot peer)
    (saved : node.log.saveSnapshot
      { info :=
          { lastIndex := node.lastApplied, lastTerm := lastTerm, membership := node.membership }
        data := data } = .ok log) :
    Followed M bootstrap guards trail peer { node with log := log, taken := taken }
      fun _ => True := by
  have partial_ : ¬ guards.whole := by
    intro whole
    rcases asked with threshold | ⟨other,taking⟩
    · exact threshold (tracks.whole whole).1
    · exact legal.whole whole other taking
  have fixed : guards.fixed := mode.resolve_right fun both => partial_ both.1
  generalize made : Snapshot.mk _ _ = snapshot at saved
  have same := MemoryLog.saveSnapshot_eq dense saved
  obtain ⟨known,past⟩ := tracks.log.termAt_some found
  have low := past.resolve_left pos
  have high := historyTerm_le known
  subst same
  refine .one (.fold trail node.lastApplied low ?_ high) ?_ trivial
  · rw [tracks.applied]
  · have rooted := inv.chain.rooted peer
    have index : snapshot.info.lastIndex = node.lastApplied := by rw [← made]
    refine { tracks with
      log := ?_
      folds := fun other held => ?_
      whole := fun whole => absurd whole partial_ }
    · simp only [update_self]
      rw [← index]
      refine tracks.log.captured ?_ ?_ ?_
      · rw [index]
        exact pos
      · rw [index]
        exact low
      · rw [← made]
        exact known
    · cases held
      rw [← made]
      refine ⟨pos,known,?_,node.machine,read,tracks.durable⟩
      rw [tracks.member,fromEntries_fixed inv fixed rooted,fromEntries_fixed inv fixed
        (rooted.of_isPrefix (setting bootstrap) ( take_prefix _ _))]

theorem speak {merged : Bool} (pursues : Pursues M bootstrap guards action peer ⟨node,merged⟩ trail)
    (legal : Legal M guards action start) (later : start.hard.term ≤ node.hard.term)
    (mail : ∀ to_ note, action = .deliver to_ note →
      Sent M bootstrap guards trail note) {recipient : PeerId} {message : RaftMessage}
    (speakable : Speakable action start ⟨node,merged⟩ recipient message) (outbox : List Envelope) :
    Followed M bootstrap guards trail peer { node with outbox := outbox } fun after =>
      Sent M bootstrap guards after
        { sender := node.config.id, recipient := recipient, message := message } := by
  have silent : Tracks M bootstrap guards trail peer { node with outbox := outbox } :=
    { tracks with }
  rw [tracks.named]
  cases speakable with
  | preVoteRequest | preVoteResponse | voteRefused | appendRefused => exact .none silent trivial
  | voteRequest stands listed =>
    refine .none silent ?_
    have standingNow := tracks.campaigning stands
    have own := (inv.election.candidate peer standingNow).1
    refine ⟨trail.log peer,?_,(tracks.log.lastIndex dense).symm,
      (tracks.log.lastTerm bootstrap).symm,?_⟩
    · change trail.campaign peer node.hard.term = _
      rw [← tracks.term]
      exact own
    · rw [tracks.configuration]
      exact (mem_toFinset _ _).mpr listed
  | voteGranted voted =>
    refine .none silent ?_
    have vote := tracks.vote
    rw [voted] at vote
    obtain ⟨⟨_,log⟩,held,same⟩ := Option.map_eq_some_iff.mp vote
    cases same
    exact ⟨log,held⟩
  | appendEntries prev prevTerm maxEntries entries leads found read =>
    obtain ⟨owned,line⟩ := tracks.line inv leads
    refine .one (.tell trail (tracks.leading leads)) { tracks with } ⟨owned,?_,?_⟩
    · change Batch (trail.line node.hard.term) prev prevTerm entries
      rw [line]
      exact tracks.batch dense found read
    · exact .inr ⟨tracks.term.symm,tracks.commit.symm⟩
  | appendAccepted to_ note prev prevTerm entries leaderCommit matchIndex mailed
      message reached =>
      have sent := mail to_ note mailed
      unfold Sent at sent
      rw [message] at sent
      rcases reached with rfl | ⟨held,rfl⟩
      · exact tracks.vouch (by rw [sent.1]; simp) outbox
      · exact .none silent (pursues.merged held _ _ _ _ _ _ _ mailed message)
  | installSnapshot snapshot leads held =>
    obtain ⟨owned,line⟩ := tracks.line inv leads
    have partial_ : ¬ guards.whole := by
      intro whole
      have none := (tracks.whole whole).2
      rw [none] at held
      cases held
    have folds := tracks.folds snapshot held
    refine .one (.ship trail partial_ (tracks.leading leads)) { tracks with }
      ⟨owned,.inr ⟨tracks.term.symm,tracks.log.floor_of_some held⟩,?_⟩
    rw [line]
    exact folds
  | snapshotCovered to_ note snapshot mailed message covered intact =>
    have sent := mail to_ note mailed
    unfold Sent at sent
    rw [message] at sent
    refine tracks.report dense (by rw [sent.1]; simp) (fun restricted => ?_) outbox
    have partial_ : ¬ guards.whole := fun whole => inv.floors.unshipped whole _ _ sent.2.1
    have guarded := legal.report restricted partial_ to_ note _ snapshot mailed message
      later (by rw [← intact.commit]; exact covered)
    rw [intact.log,intact.commit]
    exact guarded
  | snapshotInstalled to_ note snapshot mailed message edge =>
    have sent := mail to_ note mailed
    unfold Sent at sent
    rw [message] at sent
    obtain ⟨after,moves,tracked,acked,_⟩ := tracks.vouch (by rw [sent.1]; simp) outbox
    refine ⟨after,moves,tracked,?_⟩
    rw [← edge]
    exact acked

end Tracks

end Steps

end Astrs.Raft
