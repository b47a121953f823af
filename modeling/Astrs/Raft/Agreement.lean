/-
Agreement between replicas with a fixed membership.

Election safety and log matching hold in every run; the rest where a snapshot is only
delivered if it neither erases entries it agrees with nor makes the receiver vouch for
entries the leader may not have.
-/

import Astrs.Raft.Runs

namespace Astrs.Raft

open Astrs.Base Astrs.Consensus

variable {M : Type}

/-- Terms stay below the top of their counter and nobody changes the members. -/
def staticRun (cluster : Cluster M) (action : Action) : Bool := cluster.below && action.keepsMembers

/-- Moreover, snapshots are delivered only where they do no harm. -/
def cleanRun (cluster : Cluster M) (action : Action) : Bool :=
  staticRun cluster action && cluster.installsCleanly action && cluster.reportsCleanly action

def staticGuards : Guards :=
  { fixed := True, whole := False, install := False, report := False, reconfigure := False
    durable := False }

def cleanGuards : Guards :=
  { fixed := True, whole := False, install := True, report := True, reconfigure := True
    durable := True }

section Static

variable {cluster : Cluster M} {action : Action}

theorem reconfiguresCleanly_of_keepsMembers (kept : action.keepsMembers = true) :
    cluster.reconfiguresCleanly action = true := by
  cases action with
  | proposeMembership => cases kept
  | tick | propose | takeSnapshot | deliver | restart => rfl

theorem staticRun_conforms (admitted : staticRun cluster action = true) :
    Conforms staticGuards cluster action := by
  obtain ⟨below,kept⟩ := Bool.and_eq_true_iff.mp admitted
  exact conforms below (fun _ => kept) False.elim False.elim False.elim False.elim

theorem cleanRun_conforms (admitted : cleanRun cluster action = true) :
    Conforms cleanGuards cluster action := by
  obtain ⟨installs,reports⟩ := Bool.and_eq_true_iff.mp admitted
  obtain ⟨static,installs⟩ := Bool.and_eq_true_iff.mp installs
  obtain ⟨below,kept⟩ := Bool.and_eq_true_iff.mp static
  exact conforms below (fun _ => kept) False.elim (fun _ _ => installs) (fun _ _ => reports)
    fun _ => reconfiguresCleanly_of_keepsMembers kept

end Static

section Results

variable [StateMachine M] {boot : OrderedSet PeerId} {first middle last : Cluster M}

/-- At most one peer ever leads a term. -/
theorem election_safety (fresh : first.Initial bootstrap)
    (before : Cluster.Run (Permits staticRun) first middle)
    (after : Cluster.Run (Permits staticRun) middle last)
    {peer other : PeerId} {node leader : RaftNode M}
    (found : middle.nodes.get peer = some node) (leads : node.role = .leader)
    (otherFound : last.nodes.get other = some leader) (otherLeads : leader.role = .leader)
    (same : node.hard.term = leader.hard.term) : peer = other := by
  obtain ⟨_,_,simulates,_,simulatesLast,_,evolved⟩ :=
    refined staticGuards fresh False.elim (.inl trivial) False.elim
      (fun _ _ => staticRun_conforms) before after
  have tracks := simulates.nodes peer node found
  have tracksOther := simulatesLast.nodes other leader otherFound
  have extended := (simulates.inv.evolves evolved).2
  refine simulates.inv.one_leader simulatesLast.inv extended (tracks.leading leads)
    (tracksOther.leading otherLeads) ?_
  rw [tracks.term,tracksOther.term,same]

theorem election_safety_trio : ∃ first last : Cluster Register,
    first.Initial (OrderedSet.ofList [1,2,3]) ∧ Cluster.Run (Permits staticRun) first last ∧
      ∃ node, last.nodes.get 1 = some node ∧ node.role = .leader ∧ node.hard.term = 1 ∧
        ∀ other leader, last.nodes.get other = some leader → leader.role = .leader →
          leader.hard.term = 1 → 1 = other := by
  obtain ⟨first,last,fresh,_,run,node,found,leads,term⟩ := exists_sample_run staticRun [1,2,3]
    electFirst (fun last => ∃ node, last.nodes.get 1 = some node ∧
      node.role = .leader ∧ node.hard.term = 1)
    (by decide +kernel)
  refine ⟨first,last,fresh,run,node,found,leads,term,?_⟩
  intro _ _ otherFound otherLeads otherTerm
  exact election_safety fresh run (.refl last) found leads otherFound otherLeads
    (term.trans otherTerm.symm)

variable {guards : Guards} {peer other : PeerId}

/-- Where both histories are still held, the stores hold their entries. -/
theorem Tracks.entry_eq {past : History}
    {node another : RaftNode M} (tracks : Tracks M boot guards past peer node)
    (tracksOther : Tracks M boot guards past other another) {index lower : Nat}
    (agree : (past.log peer).take index = (past.log other).take index)
    (below : lower ≤ index) {entry held : LogEntry} (found : node.log.entry lower = some entry)
    (otherFound : another.log.entry lower = some held) : entry = held := by
  obtain ⟨_,rfl⟩ := MemoryLog.succ_of_entry found
  have left := (tracks.log.entry_some found).2
  have right := (tracksOther.log.entry_some otherFound).2
  rw [← List.getElem?_take_of_lt below,agree,List.getElem?_take_of_lt below,right] at left
  exact (Option.some.inj left).symm

/-- Logs with the same term at an index agree up to it, as far as both still
hold entries; along a log, terms never go down and indices have no gap. -/
theorem log_matching (fresh : first.Initial bootstrap)
    (run : Cluster.Run (Permits staticRun) first last) :
    (∀ peer other node another index term, last.nodes.get peer = some node →
        last.nodes.get other = some another → node.log.termAt index = some term →
        another.log.termAt index = some term →
        ∀ lower ≤ index, ∀ entry held, node.log.entry lower = some entry →
          another.log.entry lower = some held → entry = held) ∧
      ∀ peer node, last.nodes.get peer = some node →
        node.log.entries.Pairwise (fun older newer => older.term ≤ newer.term) ∧
        (∀ position entry, node.log.entries[position]? = some entry →
          entry.index = node.log.firstIndex + position) ∧
        node.log.lastIndex + 1 = node.log.firstIndex + node.log.entries.length := by
  obtain ⟨_,_,_,_,simulates,sound,_⟩ :=
    refined staticGuards fresh False.elim (.inl trivial) False.elim
      (fun _ _ => staticRun_conforms) run (.refl last)
  have rooted := simulates.inv.chain.rooted
  constructor
  · intro peer other node another _ _ found otherFound known otherKnown _ below _
      held inside otherInside
    have tracks := simulates.nodes peer node found
    have tracksOther := simulates.nodes other another otherFound
    have agree := take_eq_of_historyTerm (rooted peer) (rooted other)
      (tracks.log.termAt_some known).1 (tracksOther.log.termAt_some otherKnown).1
    exact tracks.entry_eq tracksOther agree below inside otherInside
  · intro peer node found
    have tracks := simulates.nodes peer node found
    have contiguous := (sound.nodes peer node found).sound.contiguous
    refine ⟨?_,fun position entry inside => ?_,?_⟩
    · rw [tracks.log.entries]
      exact (simulates.inv.chain.ascending simulates.inv.election (rooted peer)).sublist
        (List.drop_sublist _ _)
    · rw [MemoryLog.firstIndex_eq]
      exact contiguous position entry inside
    · rw [contiguous.lastIndex_eq,MemoryLog.firstIndex_eq]
      omega

/-- A follower that has copied its leader's first entry agrees with it there. -/
theorem log_matching_trio : ∃ first last : Cluster Register,
    first.Initial (OrderedSet.ofList [1,2,3]) ∧ Cluster.Run (Permits staticRun) first last ∧
      ∃ node another, last.nodes.get 1 = some node ∧ last.nodes.get 2 = some another ∧
        node.log.termAt 1 = some 1 ∧ another.log.termAt 1 = some 1 ∧
        ∀ entry held, node.log.entry 1 = some entry → another.log.entry 1 = some held →
          entry = held := by
  obtain ⟨first,last,fresh,_,run,node,another,found,otherFound,held,otherHeld⟩ :=
    exists_sample_run staticRun [1,2,3]
      (electFirst ++ [.deliver 2 ⟨1,2,.appendEntries 1 0 0 [⟨1,1,.noop⟩] 0⟩])
      (fun last => ∃ node another, last.nodes.get 1 = some node ∧ last.nodes.get 2 = some another ∧
        node.log.termAt 1 = some 1 ∧ another.log.termAt 1 = some 1)
      (by decide +kernel)
  exact ⟨first,last,fresh,run,node,another,found,otherFound,held,otherHeld,
    (log_matching fresh run).1 1 2 node another 1 1 found otherFound held otherHeld 1
      (Nat.le_refl 1)⟩

theorem Tracks.committed_on_line {past next : History}
    {node leader : RaftNode M} (tracks : Tracks M boot guards past peer node)
    (tracksLeader : Tracks M boot guards next other leader)
    (inv : Inv (setting boot) guards past) (invNext : Inv (setting boot) guards next)
    (grown : Extends past next) (strict : guards.Strict) {spot : Nat} {entry : LogEntry}
    (inside : node.log.entry (spot + 1) = some entry)
    (committed : spot + 1 ≤ node.commitIndex) (leads : leader.role = .leader)
    (later : node.hard.term < leader.hard.term) :
    spot < (next.base leader.hard.term).length ∧ (next.log other)[spot]? = some entry := by
  obtain ⟨_,held⟩ := tracks.log.entry_some inside
  obtain ⟨within,counted⟩ := snoc_of_getElem? held
  obtain ⟨owned,line⟩ := tracksLeader.line invNext leads
  have based := inv.base_holds invNext grown strict within
    (by rw [counted,tracks.commit]; exact committed) owned (by rw [tracks.term]; exact later)
  have length := based.length_le
  rw [List.length_append,List.length_singleton,counted] at length
  have onLine := based.trans (invNext.chain.base_prefix owned)
  rw [line] at onLine
  have found := getElem?_of_snoc onLine
  rw [counted] at found
  exact ⟨length,found⟩

/-- A snapshot of index one erases two entries the third replica has already
acknowledged.  The leader commits them on that acknowledgement, and the next
leader, elected with the third replica's vote, commits another entry in the
place of one of them. -/
def erasedAcknowledgement : List Action := electFirst ++ [.propose 1 [7],.propose 1 [8],
      .deliver 2 ⟨1,2,.appendEntries 1 0 0 [⟨1,1,.noop⟩] 0⟩,
      .deliver 1 ⟨2,1,.appendEntriesResponse 1 true 1 0 0⟩,
      .takeSnapshot 1,.tick 1,
      .deliver 3 ⟨1,3,.appendEntries 1 0 0 [⟨1,1,.noop⟩,⟨1,2,.command [7]⟩,⟨1,3,.command [8]⟩] 0⟩,
      .deliver 3 ⟨1,3,.installSnapshot 1 ⟨⟨1,1,Membership.new [1,2,3]⟩,[]⟩⟩,
      .deliver 1 ⟨3,1,.appendEntriesResponse 1 true 3 0 0⟩,
      .tick 2,.tick 2,
      .deliver 3 ⟨2,3,.voteRequest 2 1 1⟩,
      .deliver 2 ⟨3,2,.voteResponse 2 true⟩,
      .propose 2 [9],
      .deliver 3 ⟨2,3,.appendEntries 2 1 1 [⟨2,2,.noop⟩,⟨2,3,.command [9]⟩] 0⟩,
      .deliver 2 ⟨3,2,.appendEntriesResponse 2 true 3 0 0⟩]

/-- A replica that has voted in a term, and perhaps crashed since, votes for nobody else in it. -/
theorem vote_cast_once (fresh : first.Initial bootstrap)
    (before : Cluster.Run (Permits staticRun) first middle)
    (after : Cluster.Run (Permits staticRun) middle last) {node later : RaftNode M}
    (found : middle.nodes.get peer = some node) (voted : node.hard.votedFor = some other)
    (foundLater : last.nodes.get peer = some later) (same : node.hard.term = later.hard.term) :
    later.hard.votedFor = some other := by
  obtain ⟨_,_,simulates,_,simulatesLast,_,evolved⟩ :=
    refined staticGuards fresh False.elim (.inl trivial) False.elim
      (fun _ _ => staticRun_conforms) before after
  have extended := (simulates.inv.evolves evolved).2
  rw [← (simulates.nodes peer node found).vote] at voted
  obtain ⟨_,cast,rfl⟩ := Option.map_eq_some_iff.mp voted
  rw [← (simulatesLast.nodes peer later foundLater).vote,← same,extended.vote _ _ _ cast]
  rfl

/-- The second replica has restarted since it voted, and its vote stands. -/
theorem second_votes_once : ∃ first middle last : Cluster Register,
    first.Initial (OrderedSet.ofList [1,2,3]) ∧ Cluster.Run (Permits staticRun) first middle ∧
      middle.follow staticRun [.restart 2 (sampleConfig [1,2,3] 2),.tick 2] = some last ∧
      ∃ later, last.nodes.get 2 = some later ∧ later.hard.votedFor = some 1 := by
  obtain ⟨first,middle,fresh,_,before,last,followed,_,later,found,foundLater,voted,same⟩ :=
    exists_sample_run staticRun [1,2,3] electFirst
      (fun middle => ∃ last,
        middle.follow staticRun [.restart 2 (sampleConfig [1,2,3] 2),.tick 2] = some last ∧
        ∃ node later, middle.nodes.get 2 = some node ∧ last.nodes.get 2 = some later ∧
          node.hard.votedFor = some 1 ∧ node.hard.term = later.hard.term)
      (by decide +kernel)
  exact ⟨first,middle,last,fresh,before,followed,later,foundLater,
    vote_cast_once fresh before (Cluster.run_of_follow followed) found voted foundLater same⟩

/-- What the leader of a term holds, whoever leads that term later holds as well, as far down as
its log still reaches. -/
theorem leader_append_only (fresh : first.Initial bootstrap)
    (before : Cluster.Run (Permits staticRun) first middle)
    (after : Cluster.Run (Permits staticRun) middle last) {node leader : RaftNode M}
    (found : middle.nodes.get peer = some node) (leads : node.role = .leader)
    (otherFound : last.nodes.get other = some leader) (otherLeads : leader.role = .leader)
    (same : node.hard.term = leader.hard.term) {index : Nat} {entry : LogEntry}
    (inside : node.log.entry index = some entry) (reaches : leader.log.firstIndex ≤ index) :
    leader.log.entry index = some entry := by
  obtain ⟨_,_,simulates,_,simulatesLast,_,evolved⟩ :=
    refined staticGuards fresh False.elim (.inl trivial) False.elim
      (fun _ _ => staticRun_conforms) before after
  have tracks := simulates.nodes peer node found
  have tracksLeader := simulatesLast.nodes other leader otherFound
  -- Both logs are the line of the term, which only grows.
  have grown := (simulates.inv.evolves evolved).2.line node.hard.term
  rw [(tracks.line simulates.inv leads).2,same,
    (tracksLeader.line simulatesLast.inv otherLeads).2] at grown
  obtain ⟨position,rfl⟩ := MemoryLog.succ_of_entry inside
  obtain ⟨within,counted⟩ := snoc_of_getElem? (tracks.log.entry_some inside).2
  rw [MemoryLog.firstIndex_eq,tracksLeader.log.boundary] at reaches
  rw [tracksLeader.log.entry (by omega),← counted]
  exact getElem?_of_snoc (within.trans grown)

/-- The leader has appended a command to the entry it opened its term with. -/
theorem opening_entry_kept : ∃ first middle last : Cluster Register,
    first.Initial (OrderedSet.ofList [1,2,3]) ∧ Cluster.Run (Permits staticRun) first middle ∧
      middle.follow staticRun [.propose 1 [7]] = some last ∧
      ∃ leader, last.nodes.get 1 = some leader ∧ leader.log.lastIndex = 2 ∧
        leader.log.entry 1 = some ⟨1,1,.noop⟩ := by
  obtain ⟨first,middle,fresh,_,before,last,followed,_,leader,found,otherFound,leads,otherLeads,
      same,inside,reaches,longer⟩ := exists_sample_run staticRun [1,2,3] electFirst
      (fun middle => ∃ last, middle.follow staticRun [.propose 1 [7]] = some last ∧
        ∃ node leader, middle.nodes.get 1 = some node ∧ last.nodes.get 1 = some leader ∧
          node.role = .leader ∧ leader.role = .leader ∧ node.hard.term = leader.hard.term ∧
          node.log.entry 1 = some ⟨1,1,.noop⟩ ∧ leader.log.firstIndex ≤ 1 ∧
          leader.log.lastIndex = 2)
      (by decide +kernel)
  exact ⟨first,middle,last,fresh,before,followed,leader,otherFound,longer,
    leader_append_only fresh before (Cluster.run_of_follow followed) found leads otherFound
      otherLeads same inside reaches⟩

end Results

end Astrs.Raft
