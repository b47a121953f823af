/-
What an acknowledgement is worth.

In clean runs an acknowledgement is true when it is said.  For appended entries it stays
true within the term as soon as snapshots never erase entries they agree with.
-/

import Astrs.Raft.Agreement

namespace Astrs.Raft

open Astrs.Base Astrs.Consensus

variable {M : Type} {action : Action}

/-! ### Honest acknowledgements -/

variable [StateMachine M] {boot : OrderedSet PeerId} {first middle last : Cluster M}

/-- Agreement of two logs up to an index that both reach: the same known terms,
and the same entries where both still hold them. -/
structure AgreeUpTo (log other : MemoryLog) (index : Nat) : Prop where
  reaches : index ≤ log.lastIndex
  otherReaches : index ≤ other.lastIndex
  terms : ∀ lower ≤ index, ∀ term held, log.termAt lower = some term →
    other.termAt lower = some held → term = held
  entries : ∀ lower ≤ index, ∀ entry held, log.entry lower = some entry →
    other.entry lower = some held → entry = held

theorem Tracks.agreeUpTo {guards : Guards} {past : History} {peer other : PeerId}
    {node another : RaftNode M} (tracks : Tracks M boot guards past peer node)
    (tracksOther : Tracks M boot guards past other another)
    (dense : node.log.Contiguous) (otherContiguous : another.log.Contiguous) {index : Nat}
    (fits : index ≤ (past.log other).length)
    (held : (past.log other).take index <+: past.log peer) :
    AgreeUpTo node.log another.log index := by
  have length : ((past.log other).take index).length = index := by
    rw [List.length_take]
    omega
  have agree : (past.log peer).take index = (past.log other).take index := by
    rw [take_eq_of_isPrefix held (Nat.le_of_eq length.symm),List.take_take,Nat.min_self]
  refine ⟨?_,?_,fun lower below term known first second => ?_,
    fun lower below entry known first second =>
      tracks.entry_eq tracksOther agree below first second⟩
  · rw [tracks.log.lastIndex dense,← length]
    exact held.length_le
  · rw [tracksOther.log.lastIndex otherContiguous]
    exact fits
  · have left := (tracks.log.termAt_some first).1
    have right := (tracksOther.log.termAt_some second).1
    rw [← historyTerm_take below,agree,historyTerm_take below,right] at left
    exact (Option.some.inj left).symm

/-- In clean runs an acknowledgement is true when it is queued: the follower's
log agrees, up to the acknowledged index, with that of the leader of the term. -/
theorem acknowledgement_honest [LawfulStateMachine M] (fresh : first.Initial bootstrap)
    (before : Cluster.Run (Permits cleanRun) first middle)
    (admitted : cleanRun middle action = true) (acted : middle.act action = some last)
    {queued : List Envelope} (grown : last.sent = middle.sent ++ queued) {envelope : Envelope}
    (member : envelope ∈ queued) {term index : Nat}
    (acknowledges : Acknowledges term envelope.message index)
    {follower leader : RaftNode M} (found : last.nodes.get envelope.sender = some follower)
    {other : PeerId} (otherFound : last.nodes.get other = some leader)
    (leads : leader.role = .leader) (leadsTerm : leader.hard.term = term) :
    AgreeUpTo follower.log leader.log index := by
  obtain ⟨_,history,_,_,simulates,sound,_⟩ :=
    refined cleanGuards fresh False.elim (.inl trivial) (fun _ => inferInstance)
      (fun _ _ => cleanRun_conforms) (Cluster.Run.step before admitted acted) (.refl last)
  have strict : cleanGuards.Strict := ⟨trivial,trivial,trivial,trivial⟩
  have soundMiddle := Cluster.Sound.run fresh before
  obtain ⟨_,final,startFound,after,outcome⟩ := soundMiddle.cases acted
  subst after
  have posted : envelope ∈ final.outbox := by
    rw [List.append_cancel_left grown]
    exact member
  have yields := soundMiddle.yields startFound outcome
  obtain ⟨_,sender⟩ := yields.outbox envelope posted
  have own := yields.acks envelope posted term index acknowledges
  have same : final.drained = follower := by
    rw [sender] at found
    change (middle.nodes.insert action.peer final.drained).get action.peer = some follower at found
    rw [OrderedMap.get_insert,if_pos rfl] at found
    exact Option.some.inj found
  have tracks := simulates.nodes _ follower found
  have tracksLeader := simulates.nodes other leader otherFound
  have sameTerm : history.term envelope.sender = term := by
    rw [tracks.term,← same]
    exact own.symm
  have acked := acknowledges.acked
    (simulates.sent envelope (List.mem_append_right middle.sent posted))
  rw [← sameTerm] at acked
  obtain ⟨fits,held⟩ := simulates.inv.acked_holds strict acked
  obtain ⟨_,line⟩ := tracksLeader.line simulates.inv leads
  rw [leadsTerm,← sameTerm] at line
  rw [line] at fits held
  exact tracks.agreeUpTo tracksLeader (sound.nodes _ follower found).sound.contiguous
    (sound.nodes other leader otherFound).sound.contiguous fits held

/-- A follower's first acknowledgement, in a cluster that has elected its first leader. -/
theorem acknowledgement_honest_trio : ∃ first middle last : Cluster Register,
    first.Initial (OrderedSet.ofList [1,2,3]) ∧ Cluster.Run (Permits cleanRun) first middle ∧
      middle.act (.deliver 2 ⟨1,2,.appendEntries 1 0 0 [⟨1,1,.noop⟩] 0⟩) = some last ∧
      last.sent = middle.sent ++ [⟨2,1,.appendEntriesResponse 1 true 1 0 0⟩] ∧
      ∃ follower leader, last.nodes.get 2 = some follower ∧ last.nodes.get 1 = some leader ∧
        leader.role = .leader ∧ leader.hard.term = 1 ∧ AgreeUpTo follower.log leader.log 1 := by
  obtain ⟨first,middle,fresh,_,before,admitted,last,acted,sent,⟨follower,found,_⟩,leader,
      otherFound,leads,term⟩ := exists_sample_run cleanRun [1,2,3] electFirst
    (fun middle => cleanRun middle
        (.deliver 2 ⟨1,2,.appendEntries 1 0 0 [⟨1,1,.noop⟩] 0⟩) = true ∧
      ∃ last, middle.act (.deliver 2 ⟨1,2,.appendEntries 1 0 0 [⟨1,1,.noop⟩] 0⟩) = some last ∧
        last.sent = middle.sent ++ [⟨2,1,.appendEntriesResponse 1 true 1 0 0⟩] ∧
        (∃ node, last.nodes.get 2 = some node ∧ True) ∧
        ∃ node, last.nodes.get 1 = some node ∧ node.role = .leader ∧ node.hard.term = 1)
    (by decide +kernel)
  exact ⟨first,middle,last,fresh,before,acted,sent,follower,leader,found,otherFound,
    leads,term,acknowledgement_honest fresh before admitted acted sent
      (List.mem_singleton.mpr rfl) (.append 1 0 0) found otherFound leads term⟩

/-- The third replica has an entry of term one that the leader of term three,
which compacted its log in term one and then led term two, does not have. -/
def coveredSnapshot : List Action := [.tick 1,.tick 1,
    .deliver 2 ⟨1,2,.voteRequest 1 0 0⟩,.deliver 3 ⟨1,3,.voteRequest 1 0 0⟩,
    .deliver 1 ⟨2,1,.voteResponse 1 true⟩,.deliver 1 ⟨3,1,.voteResponse 1 true⟩,
    .deliver 2 ⟨1,2,.appendEntries 1 0 0 [⟨1,1,.noop⟩] 0⟩,
    .deliver 3 ⟨1,3,.appendEntries 1 0 0 [⟨1,1,.noop⟩] 0⟩,
    .deliver 1 ⟨2,1,.appendEntriesResponse 1 true 1 0 0⟩,
    .deliver 1 ⟨3,1,.appendEntriesResponse 1 true 1 0 0⟩,
    .tick 1,.deliver 2 ⟨1,2,.appendEntries 1 1 1 [] 1⟩,.propose 1 [7],
    .deliver 3 ⟨1,3,.appendEntries 1 1 1 [⟨1,2,.command [7]⟩] 1⟩,.takeSnapshot 2,
    .tick 2,.tick 2,
    .deliver 4 ⟨2,4,.voteRequest 2 1 1⟩,.deliver 5 ⟨2,5,.voteRequest 2 1 1⟩,
    .deliver 2 ⟨4,2,.voteResponse 2 true⟩,.deliver 2 ⟨5,2,.voteResponse 2 true⟩,
    .tick 2,.tick 2,.tick 2,.tick 2,.tick 2,
    .deliver 4 ⟨2,4,.voteRequest 3 2 2⟩,.deliver 5 ⟨2,5,.voteRequest 3 2 2⟩,
    .deliver 2 ⟨4,2,.voteResponse 3 true⟩,.deliver 2 ⟨5,2,.voteResponse 3 true⟩,
    .deliver 3 ⟨2,3,.appendEntries 3 2 2 [⟨3,3,.noop⟩] 1⟩,
    .deliver 2 ⟨3,2,.appendEntriesResponse 3 false 0 1 1⟩]

/-- A replica that has already committed up to a snapshot answers it with the
last index of its log, although its log disagrees with the leader's there. -/
theorem covered_snapshot_overstates : ∃ first middle last : Cluster Register,
    first.Initial (OrderedSet.ofList [1,2,3,4,5]) ∧ Cluster.Run (Permits staticRun) first middle ∧
      middle.act (.deliver 3 ⟨2,3,.installSnapshot 3
        ⟨⟨1,1,Membership.new [1,2,3,4,5]⟩,[]⟩⟩) = some last ∧
      last.sent = middle.sent ++ [⟨3,2,.installSnapshotResponse 3 2⟩] ∧
      ∃ follower leader, last.nodes.get 3 = some follower ∧ last.nodes.get 2 = some leader ∧
        leader.role = .leader ∧ leader.hard.term = 3 ∧
        follower.log.entry 2 = some ⟨1,2,.command [7]⟩ ∧
        leader.log.entry 2 = some ⟨2,2,.noop⟩ := by
  obtain ⟨first,middle,fresh,_,before,last,acted,sent,⟨follower,found,holds⟩,leader,otherFound,
      leads,term,lacks⟩ := exists_sample_run staticRun [1,2,3,4,5] coveredSnapshot
    (fun middle => ∃ last, middle.act (.deliver 3 ⟨2,3,.installSnapshot 3
          ⟨⟨1,1,Membership.new [1,2,3,4,5]⟩,[]⟩⟩) = some last ∧
        last.sent = middle.sent ++ [⟨3,2,.installSnapshotResponse 3 2⟩] ∧
        (∃ node, last.nodes.get 3 = some node ∧ node.log.entry 2 = some ⟨1,2,.command [7]⟩) ∧
        ∃ node, last.nodes.get 2 = some node ∧ node.role = .leader ∧ node.hard.term = 3 ∧
          node.log.entry 2 = some ⟨2,2,.noop⟩)
    (by decide +kernel)
  exact ⟨first,middle,last,fresh,before,acted,sent,follower,leader,found,otherFound,leads,term,
    holds,lacks⟩

/-- Snapshots are not delivered where they erase entries they agree with. -/
def keepingRun (cluster : Cluster M) (action : Action) : Bool :=
  staticRun cluster action && cluster.installsCleanly action

def keepingGuards : Guards :=
  { fixed := True, whole := False, install := True, report := False, reconfigure := False
    durable := False }

omit [StateMachine M] in
theorem keepingRun_conforms {cluster : Cluster M} (admitted : keepingRun cluster action = true) :
    Conforms keepingGuards cluster action := by
  obtain ⟨static,installs⟩ := Bool.and_eq_true_iff.mp admitted
  obtain ⟨below,kept⟩ := Bool.and_eq_true_iff.mp static
  exact conforms below (fun _ => kept) False.elim (fun _ _ => installs) False.elim False.elim

/-- A log never gets shorter than what its replica has acknowledged to an append
of the term it is still in. -/
theorem acknowledged_kept (fresh : first.Initial bootstrap)
    (run : Cluster.Run (Permits keepingRun) first last) {envelope : Envelope}
    (member : envelope ∈ last.sent) {term matchIndex conflictIndex conflictTerm : Nat}
    (accepts : envelope.message =
      .appendEntriesResponse term true matchIndex conflictIndex conflictTerm)
    {follower : RaftNode M} (found : last.nodes.get envelope.sender = some follower)
    (still : follower.hard.term = term) : matchIndex ≤ follower.log.lastIndex := by
  obtain ⟨_,_,_,_,simulates,sound,_⟩ :=
    refined keepingGuards fresh False.elim (.inl trivial) False.elim
      (fun _ _ => keepingRun_conforms) run (.refl last)
  have tracks := simulates.nodes _ follower found
  have sent := simulates.sent envelope member
  unfold Sent at sent
  rw [accepts] at sent
  have floors := simulates.inv.floors
  rw [tracks.log.lastIndex (sound.nodes _ follower found).sound.contiguous]
  rcases (floors.accepted trivial _ _ _ sent.2).2 (tracks.term.trans still) with
    folded | ⟨held,fits⟩
  · exact folded.trans (floors.log envelope.sender)
  · have length := held.length_le
    rw [List.length_take,Nat.min_eq_left fits] at length
    exact length

theorem acknowledged_kept_trio : ∃ first last : Cluster Register,
    first.Initial (OrderedSet.ofList [1,2,3]) ∧ Cluster.Run (Permits keepingRun) first last ∧
      ⟨2,1,.appendEntriesResponse 1 true 1 0 0⟩ ∈ last.sent ∧
      ∃ follower, last.nodes.get 2 = some follower ∧ follower.hard.term = 1 ∧
        1 ≤ follower.log.lastIndex := by
  obtain ⟨first,last,fresh,_,run,member,follower,found,term⟩ := exists_sample_run keepingRun [1,2,3]
    (electFirst ++ [.deliver 2 ⟨1,2,.appendEntries 1 0 0 [⟨1,1,.noop⟩] 0⟩])
    (fun last => ⟨2,1,.appendEntriesResponse 1 true 1 0 0⟩ ∈ last.sent ∧
      ∃ node, last.nodes.get 2 = some node ∧ node.hard.term = 1)
    (by decide +kernel)
  exact ⟨first,last,fresh,run,member,follower,found,term,
    acknowledged_kept fresh run member rfl found term⟩

/-- Replica three acknowledges three entries and then, still in the same term,
installs its leader's snapshot of the first one in place of its whole log. -/
theorem acknowledged_entries_erased : ∃ first last : Cluster Register,
    first.Initial (OrderedSet.ofList [1,2,3]) ∧ Cluster.Run (Permits staticRun) first last ∧
      ⟨3,1,.appendEntriesResponse 1 true 3 0 0⟩ ∈ last.sent ∧
      ∃ follower, last.nodes.get 3 = some follower ∧ follower.hard.term = 1 ∧
        follower.log.lastIndex = 1 := by
  exact exists_run staticRun (Register.mk []) (sampleConfigs [1,2,3])
    (erasedAcknowledgement.take 12) _ (sampleConfigs_peers _) rfl (by decide +kernel)

end Astrs.Raft
