/-
How far a replica has committed and applied.

A follower takes the smaller of what the leader has committed and the last entry of the
message, which is below what it has committed already when an old message comes late.
-/

import Astrs.Raft.Agreement

namespace Astrs.Raft

open Astrs.Base Astrs.Consensus RaftNode

variable {M : Type}

/-- Entries that reach a replica while its leader has committed more than it has
end no earlier than what the replica has committed. -/
def Cluster.advancesCleanly (cluster : Cluster M) : Action → Bool
  | .deliver peer envelope =>
    match envelope.message, cluster.nodes.get peer with
    | .appendEntries term prevLogIndex _ entries leaderCommit,some node =>
      decide (term < node.hard.term) || decide (leaderCommit ≤ node.commitIndex) ||
        decide (node.commitIndex ≤ prevLogIndex + entries.length)
    | _,_ => true
  | _ => true

/-- Clean runs in which no late message takes the commit index back. -/
def orderlyRun (cluster : Cluster M) (action : Action) : Bool :=
  cleanRun cluster action && cluster.advancesCleanly action

def Action.restarts (peer : PeerId) : Action → Bool
  | .restart other _ => decide (other = peer)
  | _ => false

def orderlyWithout (peer : PeerId) (cluster : Cluster M) (action : Action) : Bool :=
  orderlyRun cluster action && !action.restarts peer

theorem Cluster.advances {cluster : Cluster M} {action : Action} {peer : PeerId}
    {note : Envelope} {node : RaftNode M} {term prev prevLogTerm : Nat}
    {batch : List LogEntry} {leaderCommit : Nat} (clean : cluster.advancesCleanly action = true)
    (found : cluster.nodes.get action.peer = some node)
    (mailed : action = .deliver peer note)
    (message : note.message = .appendEntries term prev prevLogTerm batch leaderCommit)
    (current : node.hard.term ≤ term) (ahead : node.commitIndex < leaderCommit) :
    node.commitIndex ≤ prev + batch.length := by
  subst mailed
  change cluster.nodes.get peer = some node at found
  simp only [Cluster.advancesCleanly,message,found,Bool.or_eq_true,decide_eq_true_eq] at clean
  omega

section Operation

variable [StateMachine M] {action : Action}

/-- Since the operation began, the commit index has not gone down, and nothing
above it has been applied. -/
structure RaftNode.Rises (start node : RaftNode M) : Prop where
  term : start.hard.term ≤ node.hard.term
  commit : start.commitIndex ≤ node.commitIndex
  applied : node.lastApplied ≤ node.commitIndex

theorem NodeStep.rises {start : RaftNode M} {before after : Moment M}
    (moved : NodeStep action start before after) (received : Received action start)
    (below : start.hard.term < u64Max)
    (clean : ∀ peer note term prev prevLogTerm batch leaderCommit,
      action = .deliver peer note →
      note.message = .appendEntries term prev prevLogTerm batch leaderCommit →
      start.hard.term ≤ term → start.commitIndex < leaderCommit →
        start.commitIndex ≤ prev + batch.length)
    (rises : start.Rises before.node) : start.Rises after.node := by
  obtain ⟨term,commit,applied⟩ := rises
  cases moved with
  | quiet | clock | resign | preStand | tally | win | speak | pace | credit | hand
  | drive | capture | spoil => exact ⟨term,commit,applied⟩
  | adopt node merged later higher =>
    rw [saveHardState_eq]
    exact ⟨term.trans (Nat.le_of_lt higher),commit,applied⟩
  | stand node merged voter prompted =>
    have next := Term.next_eq (prompted.below (fun peer note mailed =>
      (received peer note mailed).1) below)
    rw [saveHardState_eq,next]
    exact ⟨term.trans (Nat.le_succ _),commit,applied⟩
  | grant =>
    rw [saveHardState_eq]
    exact ⟨term,commit,applied⟩
  | append node merged payload =>
    obtain ⟨_,same,_⟩ := appended_eq node payload
    rw [same]
    exact ⟨term,commit,applied⟩
  | advance node merged candidate leads counted above =>
    exact ⟨term,commit.trans (Nat.le_of_lt above),applied.trans (Nat.le_of_lt above)⟩
  | apply node merged machine ahead =>
    exact ⟨term,commit,ahead⟩
  | accept node peer note prev prevLogTerm batch leaderCommit membership pending
      mailed message role intact =>
      have unmoved := intact.commit
      have raised : node.commitIndex ≤
          (node.accepted prev batch leaderCommit membership pending).commitIndex := by
        change node.commitIndex ≤ if node.commitIndex < leaderCommit then
          min leaderCommit (prev + batch.length) else node.commitIndex
        split
        · rename_i ahead
          rw [unmoved] at ahead ⊢
          have reaches := clean peer note _ _ _ _ _ mailed message term ahead
          omega
        · exact Nat.le_refl _
      exact ⟨term,commit.trans raised,applied.trans raised⟩
  | install node merged peer note snapshot machine mailed message role intact ahead =>
    exact ⟨term,commit.trans (Nat.le_of_lt ahead),Nat.le_refl _⟩

end Operation

/-! ### Whole runs -/

section Runs

variable [StateMachine M] {boot : OrderedSet PeerId} {cluster after : Cluster M}
  {action : Action} {peer : PeerId}

theorem Cluster.Sound.rises (sound : cluster.Sound boot)
    (marked : ∀ peer node, cluster.nodes.get peer = some node → node.lastApplied ≤ node.commitIndex)
    (admitted : orderlyRun cluster action = true) (acted : cluster.act action = some after)
    {node : RaftNode M} (found : after.nodes.get peer = some node) :
    node.lastApplied ≤ node.commitIndex ∧ (action.restarts peer = false →
        ∃ start, cluster.nodes.get peer = some start ∧ start.commitIndex ≤ node.commitIndex) := by
  obtain ⟨clean,advances⟩ := Bool.and_eq_true_iff.mp admitted
  rcases sound.node_cases acted found with ⟨_,same⟩ | ⟨here,start,final,startFound,rfl,outcome⟩
  · exact ⟨marked peer node same,fun _ => ⟨node,same,Nat.le_refl _⟩⟩
  · have settled := sound.nodes peer start startFound
    cases outcome with
    | ignored same =>
      subst same
      exact ⟨marked peer final startFound,fun _ => ⟨final,startFound,Nat.le_refl _⟩⟩
    | operated finished mail =>
      have received := sound.received mail
      have below := (cleanRun_conforms clean).legal start (here ▸ startFound)
      obtain ⟨_,_,rises⟩ := finished.invariant received settled.kept
        (fun moment => start.Rises moment.node)
        ⟨Nat.le_refl _,Nat.le_refl _,marked peer start startFound⟩
        fun _ _ _ held moved => moved.rises received below.below
          (fun _ _ _ _ _ _ _ mailed message current ahead =>
            cluster.advances advances (here ▸ startFound) mailed message current ahead) held
      exact ⟨rises.applied,fun _ => ⟨start,startFound,rises.commit⟩⟩
    | restarted restarted =>
      obtain ⟨_,_,rfl,_,_,built⟩ := restarted
      have rebuilt := new_rebuilt settled.sound.contiguous built
      refine ⟨Nat.le_of_eq rebuilt.commitIndex.symm,fun unstarted => ?_⟩
      exact absurd here.symm (of_decide_eq_false unstarted)

variable {first middle last : Cluster M}

theorem marked_run (fresh : first.Initial boot)
    (run : Cluster.Run (Permits orderlyRun) first last) :
    ∀ peer node, last.nodes.get peer = some node → node.lastApplied ≤ node.commitIndex := by
  induction run with
  | refl =>
    intro _ _ found
    obtain ⟨_,_,rebuilt,_⟩ := fresh.rebuilt found
    exact Nat.le_of_eq rebuilt.commitIndex.symm
  | step before admitted acted ih =>
    exact fun _ _ found => ((Cluster.Sound.run fresh before).rises ih admitted acted found).1

theorem orderly_of_without (run : Cluster.Run (Permits (orderlyWithout peer)) first last) :
    Cluster.Run (Permits orderlyRun) first last :=
  run.mono fun _ _ admitted => (Bool.and_eq_true_iff.mp admitted).1

theorem commit_le_run (fresh : first.Initial boot)
    (before : Cluster.Run (Permits orderlyRun) first middle)
    (after : Cluster.Run (Permits (orderlyWithout peer)) middle last) {node later : RaftNode M}
    (found : middle.nodes.get peer = some node) (laterFound : last.nodes.get peer = some later) :
    node.commitIndex ≤ later.commitIndex := by
  induction after generalizing later with
  | refl =>
    rw [found] at laterFound
    cases laterFound
    exact Nat.le_refl _
  | step earlier admitted acted ih =>
    obtain ⟨orderly,unstarted⟩ := Bool.and_eq_true_iff.mp admitted
    have whole := before.trans (orderly_of_without earlier)
    obtain ⟨_,rises⟩ := (Cluster.Sound.run fresh whole).rises (marked_run fresh whole) orderly
      acted laterFound
    obtain ⟨_,startFound,raised⟩ := rises (Bool.not_eq_true' _ |>.mp unstarted)
    exact (ih startFound).trans raised

/-- In orderly runs, while a replica is not restarted its commit index never goes
down, and it always lies between what is applied and the end of the log. -/
theorem commit_index_monotone [LawfulStateMachine M] (fresh : first.Initial bootstrap)
    (before : Cluster.Run (Permits orderlyRun) first middle)
    (after : Cluster.Run (Permits (orderlyWithout peer)) middle last) {node later : RaftNode M}
    (found : middle.nodes.get peer = some node) (laterFound : last.nodes.get peer = some later) :
    node.commitIndex ≤ later.commitIndex ∧ later.lastApplied ≤ later.commitIndex ∧
      later.commitIndex ≤ later.log.lastIndex := by
  have run := before.trans (orderly_of_without after)
  refine ⟨commit_le_run fresh before after found laterFound,marked_run fresh run _ _ laterFound,?_⟩
  obtain ⟨_,_,_,_,simulates,sound,_⟩ :=
    refined cleanGuards fresh False.elim (.inl trivial) (fun _ => inferInstance)
      (fun _ _ => cleanRun_conforms)
      (run.mono fun _ _ admitted => (Bool.and_eq_true_iff.mp admitted).1) (.refl last)
  have tracks := simulates.nodes peer later laterFound
  rw [← tracks.commit,tracks.log.lastIndex (sound.nodes peer later laterFound).sound.contiguous]
  exact simulates.inv.commit_le ⟨trivial,trivial,trivial,trivial⟩ peer

/-- The leader's commit index goes from zero to one. -/
theorem commit_index_monotone_trio : ∃ first middle last : Cluster Register,
    first.Initial (OrderedSet.ofList [1,2,3]) ∧ Cluster.Run (Permits orderlyRun) first middle ∧
      Cluster.Run (Permits (orderlyWithout 1)) middle last ∧
      ∃ node later, middle.nodes.get 1 = some node ∧ last.nodes.get 1 = some later ∧
        later.commitIndex = 1 ∧ node.commitIndex ≤ later.commitIndex ∧
        later.lastApplied ≤ later.commitIndex ∧ later.commitIndex ≤ later.log.lastIndex := by
  obtain ⟨first,middle,fresh,_,before,last,followed,node,later,found,laterFound,committed⟩ :=
    exists_sample_run orderlyRun [1,2,3] electFirst
      (fun middle => ∃ last, middle.follow (orderlyWithout 1)
          [.deliver 2 ⟨1,2,.appendEntries 1 0 0 [⟨1,1,.noop⟩] 0⟩,
            .deliver 1 ⟨2,1,.appendEntriesResponse 1 true 1 0 0⟩] = some last ∧
        ∃ node later, middle.nodes.get 1 = some node ∧ last.nodes.get 1 = some later ∧
          later.commitIndex = 1)
      (by decide +kernel)
  have after := Cluster.run_of_follow followed
  exact ⟨first,middle,last,fresh,before,after,node,later,found,laterFound,
    committed,commit_index_monotone fresh before after found laterFound⟩

/-- With one entry to a message, the third replica receives the first entry, the
second, and the first again, each from a leader that has committed all three. -/
def lateDuplicate : List Action := electFirst ++ [.propose 1 [7],.propose 1 [8],
      .deliver 2 ⟨1,2,.appendEntries 1 0 0 [⟨1,1,.noop⟩] 0⟩,
      .deliver 1 ⟨2,1,.appendEntriesResponse 1 true 1 0 0⟩,
      .deliver 2 ⟨1,2,.appendEntries 1 1 1 [⟨1,2,.command [7]⟩] 1⟩,
      .deliver 1 ⟨2,1,.appendEntriesResponse 1 true 2 0 0⟩,
      .deliver 2 ⟨1,2,.appendEntries 1 2 1 [⟨1,3,.command [8]⟩] 2⟩,
      .deliver 1 ⟨2,1,.appendEntriesResponse 1 true 3 0 0⟩,.tick 1,
      .deliver 3 ⟨1,3,.appendEntries 1 0 0 [⟨1,1,.noop⟩] 3⟩,
      .deliver 1 ⟨3,1,.appendEntriesResponse 1 true 1 0 0⟩,
      .deliver 3 ⟨1,3,.appendEntries 1 1 1 [⟨1,2,.command [7]⟩] 3⟩]

theorem commit_index_falls : ∃ first middle last : Cluster Register,
    first.Initial (OrderedSet.ofList [1,2,3]) ∧ Cluster.Run (Permits staticRun) first middle ∧
      middle.act (.deliver 3 ⟨1,3,.appendEntries 1 0 0 [⟨1,1,.noop⟩] 3⟩) = some last ∧
      ∃ node later, middle.nodes.get 3 = some node ∧ last.nodes.get 3 = some later ∧
        node.commitIndex = 2 ∧ later.commitIndex = 1 ∧ later.lastApplied = 2 := by
  obtain ⟨first,middle,fresh,before,last,acted,reached⟩ := exists_run staticRun (Register.mk [])
    ((sampleConfigs [1,2,3]).map fun config => { config with maxEntriesPerAppend := 1 })
    lateDuplicate
    (fun middle => ∃ last, middle.act
        (.deliver 3 ⟨1,3,.appendEntries 1 0 0 [⟨1,1,.noop⟩] 3⟩) = some last ∧
      ∃ node later, middle.nodes.get 3 = some node ∧ last.nodes.get 3 = some later ∧
        node.commitIndex = 2 ∧ later.commitIndex = 1 ∧ later.lastApplied = 2)
    (sampleConfigs_map_peers _ fun _ => rfl) rfl (by decide +kernel)
  exact ⟨first,middle,last,fresh,before,acted,reached⟩

end Runs

end Astrs.Raft
