/-
Changing the members one at a time.

The code lets a leader change the members before it has committed anything in its term,
and two leaders that do so can each elect themselves again in one term.
-/

import Astrs.Raft.Agreement

namespace Astrs.Raft

open Astrs.Base Astrs.Consensus

variable {M : Type}

/-! ### Runs that change the members -/

/-- Nobody compacts a log, and terms stay below the top of their counter. -/
def changingRun (cluster : Cluster M) (action : Action) : Bool := cluster.below && action.keepsLog

/-- Moreover, only leaders that are ready and have no uncommitted configuration
entry are asked for changes. -/
def carefulRun (cluster : Cluster M) (action : Action) : Bool :=
  changingRun cluster action && cluster.reconfiguresCleanly action

def carefulGuards : Guards :=
  { fixed := False, whole := True, install := True, report := True, reconfigure := True
    durable := True }

theorem carefulRun_conforms {cluster : Cluster M} {action : Action}
    (admitted : carefulRun cluster action = true) : Conforms carefulGuards cluster action := by
  obtain ⟨changing,careful⟩ := Bool.and_eq_true_iff.mp admitted
  obtain ⟨below,keeps⟩ := Bool.and_eq_true_iff.mp changing
  exact conforms below False.elim (fun _ => keeps) (fun _ partial_ => absurd trivial partial_)
    (fun _ partial_ => absurd trivial partial_) fun _ => careful

section Results

variable [StateMachine M] {bootstrap : OrderedSet PeerId} {first early middle last : Cluster M}

/-- In careful runs at most one peer ever leads a term, and an entry some replica
has committed stays in the log of every replica that has it and is in a term no
lower than the one it was committed in. -/
theorem membership_change_safety [LawfulStateMachine M] (fresh : first.Initial bootstrap)
    (uncompacted : first.uncompacted = true) (before : Cluster.Run (Permits carefulRun) first early)
    (between : Cluster.Run (Permits carefulRun) early middle)
    (after : Cluster.Run (Permits carefulRun) middle last) :
    (∀ peer other node leader, middle.nodes.get peer = some node → node.role = .leader →
        last.nodes.get other = some leader → leader.role = .leader →
        node.hard.term = leader.hard.term → peer = other) ∧
      ∀ peer other node holder later index entry held, early.nodes.get peer = some node →
        node.log.entry index = some entry → index ≤ node.commitIndex →
        middle.nodes.get other = some holder → holder.log.entry index = some held →
        held.term = entry.term → node.hard.term ≤ holder.hard.term →
        last.nodes.get other = some later → later.log.entry index = some entry := by
  have strict : carefulGuards.Strict := ⟨trivial,trivial,trivial,trivial⟩
  have mode : carefulGuards.fixed ∨ carefulGuards.whole ∧ carefulGuards.Strict :=
    .inr ⟨trivial,strict⟩
  obtain ⟨_,_,simulates,_,simulatesNow,soundNow,evolved⟩ :=
    refined carefulGuards fresh (fun _ => uncompacted) mode (fun _ => inferInstance)
      (fun _ _ => carefulRun_conforms) before between
  obtain ⟨next,evolvedNow,simulatesNext,_⟩ := simulatesNow.run soundNow mode
    (fun _ => inferInstance) (after.mono fun _ _ => carefulRun_conforms)
  constructor
  · intro peer other node leader found leads otherFound otherLeads same
    have tracks := simulatesNow.nodes peer node found
    have tracksOther := simulatesNext.nodes other leader otherFound
    refine simulatesNow.inv.one_leader simulatesNext.inv
      (simulatesNow.inv.evolves evolvedNow).2 (tracks.leading leads)
      (tracksOther.leading otherLeads) ?_
    rw [tracks.term,tracksOther.term,same]
  · intro peer other node holder later index _ _ found inside committed otherFound
      otherInside sameTerm reached laterFound
    have tracks := simulates.nodes peer node found
    have tracksOther := simulatesNow.nodes other holder otherFound
    have tracksLater := simulatesNext.nodes other later laterFound
    obtain ⟨_,rfl⟩ := MemoryLog.succ_of_entry inside
    obtain ⟨within,counted⟩ := snoc_of_getElem? (tracks.log.entry_some inside).2
    obtain ⟨otherWithin,otherCounted⟩ :=
      snoc_of_getElem? (tracksOther.log.entry_some otherInside).2
    have kept := simulates.inv.committed_kept simulatesNow.inv
      (simulates.inv.evolves evolved).2 strict trivial evolvedNow within
      (by rw [counted,tracks.commit]; exact committed) otherWithin
      (otherCounted.trans counted.symm) sameTerm
      (by rw [tracks.term,tracksOther.term]; exact reached)
    have floor : next.floor other = 0 := by
      rw [← tracksLater.log.boundary]
      simp [MemoryLog.boundary,(tracksLater.whole trivial).2]
    have found := getElem?_of_snoc kept
    rw [counted] at found
    rw [tracksLater.log.entry (by omega)]
    exact found

/-- A ready leader removes a voter; the entry it had committed stays with its follower. -/
theorem membership_change_safety_trio : ∃ first early middle last : Cluster Register,
    first.Initial (OrderedSet.ofList [1,2,3]) ∧ first.uncompacted = true ∧
      Cluster.Run (Permits carefulRun) first early ∧
      Cluster.Run (Permits carefulRun) early middle ∧
      Cluster.Run (Permits carefulRun) middle last ∧
      ∃ node holder later, early.nodes.get 1 = some node ∧ node.role = .leader ∧
        middle.nodes.get 2 = some holder ∧ last.nodes.get 2 = some later ∧
        later.membership = Membership.new [1,2] ∧
        later.log.entry 1 = some ⟨1,1,.noop⟩ ∧
        ∀ other leader, last.nodes.get other = some leader → leader.role = .leader →
          leader.hard.term = 1 → 1 = other := by
  obtain ⟨first,early,fresh,uncompacted,before,⟨node,holder,found,otherFound,leads,inside,committed,
      term,held,reached⟩,last,followed,later,laterFound,smaller⟩ :=
    exists_sample_run carefulRun [1,2,3] commitFirst
      (fun early => (∃ node holder, early.nodes.get 1 = some node ∧ early.nodes.get 2 = some holder ∧
          node.role = .leader ∧ node.log.entry 1 = some ⟨1,1,.noop⟩ ∧ 1 ≤ node.commitIndex ∧
          node.hard.term = 1 ∧ holder.log.entry 1 = some ⟨1,1,.noop⟩ ∧ holder.hard.term = 1) ∧
        ∃ last, early.follow carefulRun [.proposeMembership 1 (.remove 3),.deliver 2
            ⟨1,2,.appendEntries 1 1 1 [⟨1,2,.config (Membership.new [1,2])⟩] 1⟩] = some last ∧
          ∃ node, last.nodes.get 2 = some node ∧ node.membership = Membership.new [1,2])
      (by decide +kernel)
  have after := Cluster.run_of_follow followed
  obtain ⟨one,kept⟩ := membership_change_safety fresh uncompacted before (.refl early) after
  refine ⟨first,early,early,last,fresh,uncompacted,before,.refl early,after,node,holder,
    later,found,leads,otherFound,laterFound,smaller,?_,?_⟩
  · exact kept 1 2 node holder later 1 _ _ found inside committed otherFound held rfl
      (by omega) laterFound
  · intro peer leader leaderFound leaderLeads leaderTerm
    exact one 1 peer node leader found leads leaderFound leaderLeads (term.trans leaderTerm.symm)

/-- Two leaders, of terms one and two, each remove a voter before committing
anything.  Each is then elected for term three by its own configuration. -/
def hastyRemovals : List Action := [.tick 1,.tick 1,
    .deliver 2 ⟨1,2,.voteRequest 1 0 0⟩,.deliver 3 ⟨1,3,.voteRequest 1 0 0⟩,
    .deliver 1 ⟨2,1,.voteResponse 1 true⟩,.deliver 1 ⟨3,1,.voteResponse 1 true⟩,
    .proposeMembership 1 (.remove 4),
    .tick 3,.tick 3,
    .deliver 2 ⟨3,2,.voteRequest 2 0 0⟩,.deliver 4 ⟨3,4,.voteRequest 2 0 0⟩,
    .deliver 3 ⟨2,3,.voteResponse 2 true⟩,.deliver 3 ⟨4,3,.voteResponse 2 true⟩,
    .proposeMembership 3 (.remove 1),
    .tick 3,.tick 3,.tick 3,.tick 3,.tick 3,
    .deliver 4 ⟨3,4,.voteRequest 3 2 2⟩,.deliver 3 ⟨4,3,.voteResponse 3 true⟩,
    .tick 1,.tick 1,.tick 1,.tick 1,.tick 1,.tick 1,.tick 1,
    .deliver 2 ⟨1,2,.voteRequest 3 2 1⟩,.deliver 1 ⟨2,1,.voteResponse 3 true⟩]

theorem two_leaders_of_one_term : ∃ first last : Cluster Register,
    first.Initial (OrderedSet.ofList [1,2,3,4]) ∧ first.uncompacted = true ∧
      Cluster.Run (Permits changingRun) first last ∧
      ∃ node other, last.nodes.get 1 = some node ∧ last.nodes.get 3 = some other ∧
        node.role = .leader ∧ other.role = .leader ∧ node.hard.term = 3 ∧
        other.hard.term = 3 := by
  exact exists_sample_run changingRun [1,2,3,4] hastyRemovals _ (by decide +kernel)

end Results

end Astrs.Raft
