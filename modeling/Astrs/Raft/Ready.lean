/-
Leaders that are ready to serve.

A leader that has committed an entry of its own term has everything that was
committed in lower terms, has committed all of it itself, and has applied all
that it has committed.
-/

import Astrs.Raft.Agreement
import Astrs.Raft.Level

namespace Astrs.Raft

open Astrs.Base Astrs.Consensus Cluster

variable {M : Type}

/-! ### Runs without compaction -/

/-- The state machine refuses nothing it is handed in the action: a refused entry stays above
the last applied one. -/
def Cluster.applies [StateMachine M] (cluster : Cluster M) (action : Action) : Bool :=
  match cluster.act action with
  | some after => (after.handed.drop cluster.handed.length).all fun given =>
      (after.nodes.get given.1).any fun node => decide (given.2.1 ≤ node.lastApplied)
  | none => true

/-- Nobody changes the members or compacts a log, and no state machine fails. -/
def wholeRun [StateMachine M] (cluster : Cluster M) (action : Action) : Bool :=
  staticRun cluster action && action.keepsLog && cluster.applies action

def wholeGuards : Guards :=
  { fixed := True, whole := True, install := True, report := True, reconfigure := True
    durable := True }

theorem wholeRun_conforms [StateMachine M] {cluster : Cluster M} {action : Action}
    (admitted : wholeRun cluster action = true) : Conforms wholeGuards cluster action := by
  obtain ⟨static,keeps⟩ := Bool.and_eq_true_iff.mp (Bool.and_eq_true_iff.mp admitted).1
  obtain ⟨below,kept⟩ := Bool.and_eq_true_iff.mp static
  exact conforms below (fun _ => kept) (fun _ => keeps) (fun _ partial_ => absurd trivial partial_)
    (fun _ partial_ => absurd trivial partial_) fun _ => reconfiguresCleanly_of_keepsMembers kept

section Results

variable [StateMachine M] {boot : OrderedSet PeerId} {cluster after : Cluster M}
  {action : Action} {peer : PeerId}

theorem Cluster.applied_of_applies {final : RaftNode M}
    (acted : cluster.act action = some (cluster.absorb peer final))
    (applies : cluster.applies action = true) {index : Nat} {entry : LogEntry}
    (given : (index,entry) ∈ final.handed) : index ≤ final.lastApplied := by
  unfold Cluster.applies at applies
  rw [acted] at applies
  have passed := List.all_eq_true.mp applies (peer,index,entry) (by
    rw [absorb,List.drop_left]
    exact List.mem_map.mpr ⟨_,given,rfl⟩)
  obtain ⟨_,found,reached⟩ := (Option.any_eq_true _ _).mp passed
  cases found.symm.trans ((OrderedMap.get_insert _ _ _ _).trans (if_pos rfl))
  exact of_decide_eq_true reached

omit [StateMachine M] in
theorem Cluster.absorb_level {final : RaftNode M}
    (level : ∀ peer node, cluster.nodes.get peer = some node → node.Level)
    (own : final.drained.Level) :
    ∀ other node, (cluster.absorb peer final).nodes.get other = some node → node.Level := by
  intro other node found
  rcases OrderedMap.insert_some _ found with ⟨_,rfl⟩ | ⟨_,found⟩
  · exact own
  · exact level other node found

theorem Cluster.perform_level {α : Type} {operation : NodeM M α}
    (applies : cluster.applies action = true) (acted : cluster.act action = some after)
    (kept : Keeps operation RaftNode.Level)
    (level : ∀ peer node, cluster.nodes.get peer = some node → node.Level)
    (done : cluster.perform peer operation = some after) :
    ∀ other node, after.nodes.get other = some node → node.Level := by
  obtain ⟨start,found,rfl⟩ := Option.map_eq_some_iff.mp done
  obtain ⟨threshold,caught | ⟨_,given⟩⟩ := kept.leaves (level peer start found)
  · exact absorb_level level ⟨threshold,.inl caught⟩
  · have reached := applied_of_applies acted applies given
    omega

/-- An action that compacts nothing leaves every replica's marks level. -/
theorem Cluster.Sound.act_level (sound : cluster.Sound boot)
    (level : ∀ peer node, cluster.nodes.get peer = some node → node.Level)
    (keeps : action.keepsLog = true) (applies : cluster.applies action = true)
    (acted : cluster.act action = some after) :
    ∀ peer node, after.nodes.get peer = some node → node.Level := by
  cases action with
  | tick => exact perform_level applies acted tick_level level acted
  | propose => exact perform_level applies acted (appendLocal_keeps _) level acted
  | proposeMembership =>
    exact perform_level applies acted (proposeMembership_keeps _) level acted
  | takeSnapshot => cases keeps
  | deliver peer mail =>
    have done : (if mail ∈ cluster.sent then cluster.perform peer (step mail) else none) =
      some after := acted
    split at done
    · exact perform_level applies acted (step_level _) level done
    · cases done
  | restart =>
    obtain ⟨start,found,rest⟩ := Option.bind_eq_some_iff.mp acted
    split at rest
    · split at rest
      · rename_i built
        cases rest
        have rebuilt := new_rebuilt (sound.nodes _ start found).sound.contiguous built
        refine absorb_level level ⟨?_,.inl (Nat.le_of_eq rebuilt.commitIndex)⟩
        rw [RaftNode.drained,rebuilt.config_eq]
        exact of_decide_eq_true keeps
      · cases rest
    · cases rest

/-- What was applied since the operation began, and is in the log, was handed over. -/
def RaftNode.Gave (start node : RaftNode M) : Prop :=
  ∀ index, start.lastApplied < index → index ≤ node.lastApplied →
    (node.log.entry index).isSome → ∃ entry, (index,entry) ∈ node.handed

omit [StateMachine M] in
/-- What a snapshot covers is not in the log. -/
theorem MemoryLog.entry_covered {log : MemoryLog} {snapshot : Snapshot} {index : Nat}
    (held : log.snapshot = some snapshot) (low : index ≤ snapshot.info.lastIndex) :
    ¬ (log.entry index).isSome := by
  have within : index ≤ log.boundary := by
    unfold boundary
    rw [held]
    exact low
  rw [entry_eq,if_pos within]
  exact Bool.false_ne_true

theorem NodeStep.gave {start : RaftNode M} {before moment : Moment M}
    (moved : NodeStep action start before moment) (kept : start.Kept before.node)
    (gave : start.Gave before.node) : start.Gave moment.node := by
  have unapplied : ∀ {node final : RaftNode M}, Untouched start node →
      final.lastApplied = node.lastApplied → start.Gave final := by
    intro node final intact same index above within
    rw [same,intact.applied] at within
    omega
  cases moved with
  | quiet | clock | resign | preStand | tally | win | speak | pace | credit | drive | advance
  | spoil => exact gave
  | adopt | stand | grant =>
    rw [RaftNode.saveHardState_eq]
    exact gave
  | append node merged payload _ intact =>
    obtain ⟨_,same,_⟩ := RaftNode.appended_eq node payload
    exact unapplied intact (by rw [same])
  | accept node _ _ _ _ _ _ _ _ _ _ _ intact => exact unapplied intact rfl
  | hand =>
    intro index above within held
    obtain ⟨entry,given⟩ := gave index above within held
    exact ⟨entry,List.mem_append_left _ given⟩
  | apply node merged machine ahead present =>
    intro index above within held
    obtain ⟨entry,found⟩ := Option.isSome_iff_exists.mp held
    rcases Nat.of_le_succ within with earlier | next
    · exact gave index above earlier held
    · cases next
      exact ⟨entry,present entry found⟩
  | capture node merged lastTerm data log _ _ _ _ saved =>
    intro index _ within held
    cases MemoryLog.saveSnapshot_eq kept.sound.contiguous saved
    exact absurd held (MemoryLog.entry_covered rfl within)
  | install => exact fun index _ within held => absurd held (MemoryLog.entry_covered rfl within)

variable {first middle last : Cluster M}

theorem level_run (fresh : first.Initial boot) (uncompacted : first.uncompacted = true)
    (run : Cluster.Run (Permits wholeRun) first last) :
    ∀ peer node, last.nodes.get peer = some node → node.Level := by
  induction run with
  | refl =>
    intro _ _ found
    obtain ⟨_,_,rebuilt,_⟩ := fresh.rebuilt found
    exact ⟨first.threshold_eq uncompacted found,.inl (Nat.le_of_eq rebuilt.commitIndex)⟩
  | step before admitted acted ih =>
    obtain ⟨static,applies⟩ := Bool.and_eq_true_iff.mp admitted
    exact (Cluster.Sound.run fresh before).act_level ih (Bool.and_eq_true_iff.mp static).2 applies
      acted

/-- Nothing is folded. -/
theorem Tracks.floor_eq {history : History} {node : RaftNode M}
    (tracks : Tracks M boot wholeGuards history peer node) : history.floor peer = 0 := by
  rw [← tracks.log.boundary,MemoryLog.boundary,(tracks.whole trivial).2]
  rfl

theorem Simulates.holds_applied {history : History}
    (simulates : Simulates boot wholeGuards history cluster) {node : RaftNode M}
    (found : cluster.nodes.get peer = some node) {index : Nat} (some : 0 < index)
    (within : index ≤ node.lastApplied) : (node.log.entry index).isSome := by
  have strict : wholeGuards.Strict := ⟨trivial,trivial,trivial,trivial⟩
  have tracks := simulates.nodes peer node found
  have bounded := ((simulates.inv.marks strict).applied peer).le (simulates.inv.promise strict)
  rw [tracks.applied] at bounded
  obtain ⟨spot,rfl⟩ := Nat.exists_eq_succ_of_ne_zero (Nat.ne_of_gt some)
  rw [tracks.log.entry (by rw [tracks.floor_eq]; exact Nat.zero_le _),
    List.getElem?_eq_getElem (by omega)]
  rfl

/-- Every replica was given all it has applied. -/
theorem handed_run [LawfulStateMachine M] (fresh : first.Initial boot)
    (uncompacted : first.uncompacted = true) (run : Cluster.Run (Permits wholeRun) first last)
    {node : RaftNode M} (found : last.nodes.get peer = some node) {index : Nat} (some : 0 < index)
    (within : index ≤ node.lastApplied) : ∃ entry, (peer,index,entry) ∈ last.handed := by
  induction run generalizing peer node with
  | refl =>
    obtain ⟨_,_,rebuilt,_,_,unused⟩ := fresh.rebuilt found
    cases rebuilt.recovered with
    | fresh _ _ reads => omega
    | folded _ held => cases held
  | @step cluster after action before admitted acted ih =>
    obtain ⟨_,next,simulates,sound,simulatesNext,_,_⟩ :=
      refined wholeGuards fresh (fun _ => uncompacted) (.inl trivial) (fun _ => inferInstance)
        (fun _ _ => wholeRun_conforms) before (.step (.refl cluster) admitted acted)
    obtain ⟨start,final,startFound,rfl,outcome⟩ := sound.cases acted
    have older : (∃ entry, (peer,index,entry) ∈ cluster.handed) →
        ∃ entry, (peer,index,entry) ∈ (cluster.absorb action.peer final).handed :=
      Exists.imp fun _ => List.mem_append_left _
    rcases OrderedMap.insert_some _ found with ⟨rfl,rfl⟩ | ⟨_,same⟩
    · cases outcome with
      | ignored same =>
        subst same
        exact older (ih startFound within)
      | operated finished mail =>
        rcases Nat.lt_or_ge start.lastApplied index with above | below
        · obtain ⟨_,_,gave⟩ := finished.invariant (sound.received mail)
            (sound.nodes _ start startFound).kept (fun moment => start.Gave moment.node)
            (fun _ above within => absurd above (Nat.not_lt.mpr within))
            fun _ _ kept held moved => moved.gave kept held
          obtain ⟨entry,given⟩ := gave index above within
            (simulatesNext.holds_applied found some within)
          exact ⟨entry,List.mem_append_right _ (List.mem_map.mpr ⟨_,given,rfl⟩)⟩
        · exact older (ih startFound below)
      | restarted restarted =>
        obtain ⟨_,_,_,_,_,built⟩ := restarted
        have settled := sound.nodes _ start startFound
        have tracks := simulates.nodes _ start startFound
        have rebuilt := new_rebuilt settled.sound.contiguous built
        have reached := (rebuilt.recovered.bounds tracks simulates.inv
          fun _ => inferInstance).2.1 trivial
        rw [tracks.applied] at reached
        exact older (ih startFound (within.trans reached))
    · exact older (ih same within)

/-- A ready leader has applied exactly what it has committed, and everything a replica of a
lower term had committed before is among it: in its log, and given to its machine. -/
theorem ready_leader_complete [LawfulStateMachine M]
    (fresh : first.Initial bootstrap) (uncompacted : first.uncompacted = true)
    (before : Cluster.Run (Permits wholeRun) first middle)
    (after : Cluster.Run (Permits wholeRun) middle last) {other : PeerId} {leader : RaftNode M}
    (found : last.nodes.get other = some leader) (ready : leader.isReady = true) :
    leader.lastApplied = leader.commitIndex ∧
      ∀ peer node index entry, middle.nodes.get peer = some node →
        node.log.entry index = some entry → index ≤ node.commitIndex →
        node.hard.term < leader.hard.term →
          leader.log.entry index = some entry ∧ index ≤ leader.lastApplied ∧
            (other,index,entry) ∈ last.handed := by
  obtain ⟨_,next,simulates,_,simulatesLast,sound,evolved⟩ :=
    refined wholeGuards fresh (fun _ => uncompacted) (.inl trivial) (fun _ => inferInstance)
      (fun _ _ => wholeRun_conforms) before after
  have strict : wholeGuards.Strict := ⟨trivial,trivial,trivial,trivial⟩
  have tracks := simulatesLast.nodes other leader found
  have leads : leader.role = .leader := by
    cases role : leader.role with
    | leader => rfl
    | follower | preCandidate | candidate =>
      simp only [RaftNode.isReady,role,Role.isLeader,Bool.false_and] at ready
      cases ready
  obtain ⟨_,_,within,counted,sameTerm⟩ := tracks.own_commit simulatesLast.inv leads ready
  obtain ⟨based,bounded⟩ :=
    simulatesLast.inv.ready strict (tracks.leading leads) within counted sameTerm
  rw [tracks.commit] at based bounded
  rw [tracks.applied] at bounded
  have run := before.trans after
  have caught : leader.commitIndex ≤ leader.lastApplied := by
    refine (level_run fresh uncompacted run other leader found).2.resolve_right ?_
    rintro ⟨_,given⟩
    rw [(sound.nodes other leader found).handed] at given
    cases given
  have equal : leader.lastApplied = leader.commitIndex := by omega
  refine ⟨equal,fun peer node index entry nodeFound inside committed later => ?_⟩
  obtain ⟨spot,rfl⟩ := MemoryLog.succ_of_entry inside
  obtain ⟨short,held⟩ := (simulates.nodes peer node nodeFound).committed_on_line tracks
    simulates.inv simulatesLast.inv (simulates.inv.evolves evolved).2 strict inside committed
    leads later
  rw [← tracks.term] at short
  have floor := tracks.floor_eq
  have applied : spot + 1 ≤ leader.lastApplied := by omega
  refine ⟨?_,applied,?_⟩
  · rw [tracks.log.entry (by omega)]
    exact held
  · obtain ⟨given,handed⟩ := handed_run fresh uncompacted run found (Nat.succ_pos spot) applied
    obtain ⟨onLog,length⟩ := snoc_of_getElem? held
    cases simulatesLast.inv.handed_held strict (simulatesLast.handed _ _ _ handed) onLog
      (congrArg (· + 1) length) (by rw [tracks.commit]; omega)
    exact handed

/-- The leader of term two is ready, and its machine was given the command committed in term
one. -/
theorem ready_leader_complete_trio : ∃ first middle last : Cluster Register,
    first.Initial (OrderedSet.ofList [1,2,3]) ∧ first.uncompacted = true ∧
      Cluster.Run (Permits wholeRun) first middle ∧ Cluster.Run (Permits wholeRun) middle last ∧
      ∃ node leader, middle.nodes.get 1 = some node ∧ last.nodes.get 2 = some leader ∧
        leader.isReady = true ∧ leader.lastApplied = leader.commitIndex ∧
        node.log.entry 2 = some ⟨1,2,.command [7]⟩ ∧ 2 ≤ node.commitIndex ∧
        node.hard.term < leader.hard.term ∧
        leader.log.entry 2 = some ⟨1,2,.command [7]⟩ ∧ 2 ≤ leader.lastApplied ∧
        (2,2,⟨1,2,.command [7]⟩) ∈ last.handed := by
  obtain ⟨first,middle,fresh,uncompacted,before,last,followed,node,leader,found,otherFound,ready,
      inside,committed,higher⟩ := exists_sample_run wholeRun [1,2,3]
    (commitFirst ++ [.propose 1 [7],.deliver 2 ⟨1,2,.appendEntries 1 1 1 [⟨1,2,.command [7]⟩] 1⟩,
      .deliver 1 ⟨2,1,.appendEntriesResponse 1 true 2 0 0⟩])
    (fun middle => ∃ last, middle.follow wholeRun [.tick 2,.tick 2,
          .deliver 3 ⟨2,3,.voteRequest 2 2 1⟩,.deliver 2 ⟨3,2,.voteResponse 2 true⟩,
          .deliver 1 ⟨2,1,.appendEntries 2 2 1 [⟨2,3,.noop⟩] 1⟩,
          .deliver 2 ⟨1,2,.appendEntriesResponse 2 true 3 0 0⟩] = some last ∧
      ∃ node leader, middle.nodes.get 1 = some node ∧ last.nodes.get 2 = some leader ∧
        leader.isReady = true ∧ node.log.entry 2 = some ⟨1,2,.command [7]⟩ ∧
        2 ≤ node.commitIndex ∧ node.hard.term < leader.hard.term)
    (by decide +kernel)
  have after := Cluster.run_of_follow followed
  obtain ⟨level,complete⟩ := ready_leader_complete fresh uncompacted before after otherFound ready
  exact ⟨first,middle,last,fresh,uncompacted,before,after,node,leader,found,otherFound,
    ready,level,inside,committed,higher,complete 1 node 2 _ found inside committed higher⟩

end Results

end Astrs.Raft
