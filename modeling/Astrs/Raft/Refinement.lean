/-
Runs of the cluster refine runs of the abstract protocol.

Every action of a replica is a sequence of abstract transitions of its peer, and a restart
is a recovery.
-/

import Astrs.Raft.Simulation

namespace Astrs.Raft

open Astrs.Base Astrs.Consensus

variable {M : Type} [StateMachine M] {boot : OrderedSet PeerId} {guards : Guards}

/-! ### One step of an operation -/

variable {past : History} {action : Action} {peer : PeerId} {start : RaftNode M}

section Step

variable {before after : Moment M}

/-- Transitions of the peer lead to records that explain the replica at this moment. -/
abbrev Pursued (bootstrap : OrderedSet PeerId) (guards : Guards) (action : Action) (peer : PeerId)
    (moment : Moment M) (history : History) : Prop :=
  ∃ next, Moves (setting bootstrap) guards peer history next ∧
    Pursues M bootstrap guards action peer moment next

section

variable (pursues : Pursues M boot guards action peer before past)
  (inv : Inv (setting boot) guards past)
include pursues inv

/-- Records only grow, so what was queued earlier still stands. -/
theorem Pursues.follow {extra : History → Prop}
    (followed : Followed M boot guards past peer after.node extra)
    (outbox : ∀ note ∈ after.node.outbox, note ∈ before.node.outbox ∨
      ∀ next, extra next → Sent M boot guards next note)
    (handed : ∀ index entry, (index,entry) ∈ after.node.handed →
      (index,entry) ∈ before.node.handed ∨
        ∀ next : History, extra next → next.handed peer index entry)
    (merged : after.merged = true → before.merged = true ∨ ∀ next : History, extra next →
        ∀ to_ note term prev prevLogTerm entries leaderCommit,
          action = .deliver to_ note →
          note.message = .appendEntries term prev prevLogTerm entries leaderCommit →
            next.acked peer term (prev + entries.length) ∧
              next.accepted peer term (prev + entries.length)) :
    Pursued boot guards action peer after past := by
  obtain ⟨next,moves,tracks,holds⟩ := followed
  have grown := (inv.moves moves).2
  refine ⟨next,moves,tracks,?_,?_,?_⟩
  · intro note member
    rcases outbox note member with old | new
    · exact (pursues.outbox note old).mono grown
    · exact new next holds
  · intro index entry member
    rcases handed index entry member with old | new
    · exact grown.handed _ _ _ (pursues.handed index entry old)
    · exact new next holds
  · intro done _ _ _ _ _ _ _ mailed message
    rcases merged done with old | new
    · obtain ⟨acked,accepted⟩ := pursues.merged old _ _ _ _ _ _ _ mailed message
      exact ⟨grown.acked _ _ _ acked,grown.accepted _ _ _ accepted⟩
    · exact new next holds _ _ _ _ _ _ _ mailed message

/-- The common case: nothing new was queued. -/
theorem Pursues.carry (followed : Followed M boot guards past peer after.node fun _ => True)
    (outbox : after.node.outbox = before.node.outbox)
    (handed : after.node.handed = before.node.handed) (merged : after.merged = before.merged) :
    Pursued boot guards action peer after past := by
  refine pursues.follow inv followed (fun note member => .inl ?_)
    (fun index entry member => .inl ?_) (fun done => .inl ?_)
  · rw [← outbox]
    exact member
  · rw [← handed]
    exact member
  · rw [← merged]
    exact done

end

/-- What the message being handled brings along. -/
def Delivers (M : Type) [StateMachine M] (bootstrap : OrderedSet PeerId) (guards : Guards)
    (history : History) (action : Action) (peer : PeerId) : Prop :=
  ∀ to_ envelope, action = .deliver to_ envelope →
    envelope.Sound ∧ envelope.recipient = peer ∧ Sent M bootstrap guards history envelope

theorem Delivers.mono {next : History} (delivers : Delivers M boot guards past action peer)
    (grown : Extends past next) : Delivers M boot guards next action peer := by
  intro to_ note mailed
  obtain ⟨sound,addressee,sent⟩ := delivers to_ note mailed
  exact ⟨sound,addressee,sent.mono grown⟩

theorem NodeStep.simulated (moved : NodeStep action start before after)
    (inv : Inv (setting boot) guards past)
    (pursues : Pursues M boot guards action peer before past)
    (kept : start.Kept before.node) (peers : start.config.initialMembership = ⟨boot⟩)
    (mode : guards.fixed ∨ guards.whole ∧ guards.Strict)
    (lawful : guards.durable → LawfulStateMachine M) (legal : Legal M guards action start)
    (later : start.hard.term ≤ before.node.hard.term)
    (delivers : Delivers M boot guards past action peer) :
    Pursued boot guards action peer after past := by
  have tracks := pursues.tracks
  have sound := kept.sound
  have dense := sound.contiguous
  cases moved with
  | quiet | clock =>
    exact pursues.carry inv (.none { tracks with } trivial) rfl rfl rfl
  | adopt node merged term higher =>
    refine pursues.carry inv (tracks.adopt inv higher) ?_ ?_ rfl <;> rw [RaftNode.saveHardState_eq]
  | resign node merged progress =>
    exact pursues.carry inv (tracks.resign progress .empty rfl nofun) rfl rfl rfl
  | preStand node merged voter =>
    refine pursues.carry inv (tracks.resign node.progress _ rfl fun _ => ?_) rfl rfl rfl
    rw [← tracks.named]
    exact voter
  | stand node merged voter prompted =>
    refine pursues.carry inv (tracks.stand inv (prompted.below (fun to_ note mailed => (delivers to_ note mailed).1) legal.below) voter)
      ?_ ?_ rfl <;> rw [RaftNode.saveHardState_eq]
  | grant node merged to_ note lastLogIndex lastLogTerm mailed message available newer =>
    obtain ⟨_,addressee,sent⟩ := delivers to_ note mailed
    refine pursues.carry inv (tracks.grant dense sent addressee message available newer)
      ?_ ?_ rfl <;> rw [RaftNode.saveHardState_eq]
  | tally node merged to_ note granted mailed expected =>
    obtain ⟨_,addressee,sent⟩ := delivers to_ note mailed
    exact pursues.carry inv (.none (tracks.count sent addressee expected) trivial) rfl rfl rfl
  | win node merged stands most =>
    exact pursues.carry inv (tracks.win inv mode stands most) rfl rfl rfl
  | append node merged payload leads intact proposed =>
    obtain ⟨progress,same,_⟩ := RaftNode.appended_eq node payload
    refine pursues.carry inv (tracks.append inv dense mode legal leads proposed)
      ?_ ?_ rfl <;> simp only [same]
  | speak node merged recipient message addressed speakable =>
    refine pursues.follow inv (tracks.speak inv dense pursues legal later
      (fun to_ note mailed => (delivers to_ note mailed).2.2) speakable _)
      (fun note member => ?_) (fun _ _ member => .inl member) fun done => .inl done
    rcases List.mem_append.mp member with old | new
    · exact .inl old
    · rw [List.mem_singleton.mp new]
      exact .inr fun _ sent => sent
  | pace node merged progress paced =>
    exact pursues.carry inv (.none (tracks.paced paced) trivial) rfl rfl rfl
  | credit node merged to_ note index mailed acknowledges =>
    have sent := (delivers to_ note mailed).2.2
    exact pursues.carry inv (.none (tracks.credited sent acknowledges) trivial) rfl rfl rfl
  | advance node merged candidate leads found ahead ownTerm =>
    exact pursues.carry inv (tracks.advance inv dense leads found ahead ownTerm) rfl rfl rfl
  | hand node merged entry ahead found =>
    refine pursues.follow inv (tracks.hand ahead found) (fun _ member => .inl member)
      (fun index item member => ?_) fun done => .inl done
    rcases List.mem_append.mp member with old | new
    · exact .inl old
    · cases List.mem_singleton.mp new
      exact .inr fun _ handed => handed
  | drive node merged command reason failed =>
    refine pursues.carry inv (.none (tracks.strained fun durable => ?_) trivial) rfl rfl rfl
    exact (lawful durable).apply_error _ _ _ reason failed
  | apply node merged machine ahead done driven =>
    refine pursues.carry inv (tracks.apply inv lawful ahead (fun entry found => ?_) driven)
      rfl rfl rfl
    exact pursues.handed _ entry (done entry found)
  | capture node merged lastTerm data log positive found read asked saved =>
    exact pursues.carry inv (tracks.capture inv dense mode legal positive found read
      (asked.imp_left And.left) saved) rfl rfl rfl
  | accept node to_ note prev prevLogTerm entries leaderCommit membership pending
      mailed message role intact low high agrees same =>
      obtain ⟨posted,mine,sent⟩ := delivers to_ note mailed
      have numbered := posted.wellFormed
      unfold Sent at sent
      rw [message] at sent numbered
      obtain ⟨owned,batch,told⟩ := sent
      obtain ⟨follower,idle⟩ := tracks.follows inv owned (by rw [← mine]; exact posted.apart) role
      have matches_ : Tracks.Matches past peer node prev prevLogTerm entries :=
        ⟨follower,idle,by rw [owned]; simp,batch,numbered,by rw [← tracks.log.boundary]; exact low,
          by rw [← tracks.log.lastIndex dense]; exact high,agrees⟩
      have base : node.config.initialMembership = ⟨boot⟩ :=
        (congrArg RaftConfig.initialMembership kept.config).trans peers
      refine pursues.follow inv (tracks.accept inv sound base matches_ told same)
        (fun _ member => .inl member) (fun _ _ member => .inl member) fun _ => .inr ?_
      intro _ vouched _ _ _ _ _ _ _ given message_
      rw [mailed] at given
      cases given
      rw [message] at message_
      cases message_
      exact vouched
  | install node merged to_ note snapshot machine mailed message role intact
      ahead restored =>
      obtain ⟨posted,mine,sent⟩ := delivers to_ note mailed
      unfold Sent at sent
      rw [message] at sent
      obtain ⟨owned,shipped,folds⟩ := sent
      obtain ⟨follower,idle⟩ := tracks.follows inv owned (by rw [← mine]; exact posted.apart) role
      refine pursues.carry inv (tracks.install inv lawful follower idle shipped folds
        (fun restricted => ?_) restored) rfl rfl rfl
      have partial_ : ¬ guards.whole := fun whole => inv.floors.unshipped whole _ _ shipped
      have guarded := legal.install restricted partial_ to_ note _ snapshot mailed message
        later (by rw [← intact.commit]; exact ahead)
      refine tracks.replaceable dense folds ?_
      rw [intact.log]
      exact guarded
  | spoil node merged data reason failed =>
    refine pursues.carry inv (.none (tracks.strained fun durable => ?_) trivial) rfl rfl rfl
    exact (lawful durable).restore_error _ _ reason failed

end Step

variable {final : RaftNode M}

section Restart

variable {config : RaftConfig}

/-- What recovery takes up again is at least the folded part and at most what
had been applied. -/
theorem Recovered.bounds {restored : M} {reached : Nat}
    (recovered : Recovered start.log start.machine restored reached)
    (tracks : Tracks M boot guards past peer start)
    (inv : Inv (setting boot) guards past)
    (lawful : guards.durable → LawfulStateMachine M) :
    past.floor peer ≤ reached ∧ (guards.durable → reached ≤ past.applied peer) ∧
      StateMachine.appliedIndex restored ≤ reached := by
  have floor : past.floor peer ≤ past.applied peer := inv.floors.applied peer
  cases recovered with
  | fresh none machine reads =>
    subst machine reads
    refine ⟨by rw [tracks.log.floor_of_none none]; exact Nat.zero_le _,fun durable => ?_,
      Nat.le_refl _⟩
    rw [tracks.applied]
    exact tracks.durable durable
  | folded snapshot held outcome reads =>
    subst reads
    have edge := tracks.log.floor_of_some held
    refine ⟨by omega,fun durable => ?_,Nat.le_max_right _ _⟩
    obtain ⟨source,read,bounded⟩ := (tracks.folds snapshot held).source
    have claimed := (lawful durable).restore_ok source start.machine snapshot.data read
      (by rw [outcome])
    simp only [outcome] at claimed
    have := bounded durable
    omega

theorem Tracks.restart (tracks : Tracks M boot guards past peer start)
    (inv : Inv (setting boot) guards past) (sound : start.Sound)
    (lawful : guards.durable → LawfulStateMachine M)
    (rebuilt : Rebuilt config start.log start.machine final) (named : config.id = peer)
    (peers : config.peers = boot) (whole : guards.whole → config.snapshotThreshold = 0) :
    Followed M boot guards past peer final fun _ => True := by
  obtain ⟨low,high,claimed⟩ := rebuilt.recovered.bounds tracks inv lawful
  have hard : final.hard = start.hard := rebuilt.hard.trans sound.stored
  refine .one (.recover past final.lastApplied low high) ?_ trivial
  exact {
    named := by rw [rebuilt.config_eq,named]
    term := by
      rw [hard]
      exact tracks.term
    role := by
      rw [rebuilt.role]
      exact Function.update_self _ _ _
    vote := by
      rw [hard]
      exact tracks.vote
    log := by
      rw [rebuilt.log_eq]
      exact tracks.log
    folds := by
      rw [rebuilt.log_eq]
      exact tracks.folds
    commit := by
      rw [rebuilt.commitIndex]
      exact Function.update_self _ _ _
    applied := Function.update_self _ _ _
    member := by
      have base : config.initialMembership = ⟨boot⟩ := by
        unfold RaftConfig.initialMembership
        rw [peers]
      rw [rebuilt.membership,base]
      exact tracks.log.fromEntries tracks.folds
    tally := fun role => by
      rw [rebuilt.role] at role
      cases role
    ready := fun role => by
      rw [rebuilt.role] at role
      cases role
    credit := fun role => by
      rw [rebuilt.role] at role
      cases role
    durable := fun _ => claimed
    whole := fun uncompacted => by
      rw [rebuilt.config_eq,rebuilt.log_eq]
      exact ⟨whole uncompacted,(tracks.whole uncompacted).2⟩ }

end Restart

/-! ### Clusters -/

/-- The abstract state tracks every replica and explains every message. -/
structure Simulates (bootstrap : OrderedSet PeerId) (guards : Guards) (history : History)
    (cluster : Cluster M) : Prop where
  inv : Inv (setting bootstrap) guards history
  nodes : ∀ peer node, cluster.nodes.get peer = some node →
    Tracks M bootstrap guards history peer node
  sent : ∀ envelope ∈ cluster.sent, Sent M bootstrap guards history envelope
  handed : ∀ peer index entry, (peer,index,entry) ∈ cluster.handed → history.handed peer index entry

structure Conforms (guards : Guards) (cluster : Cluster M) (action : Action) : Prop where
  legal : ∀ node, cluster.nodes.get action.peer = some node → Legal M guards action node
  whole : guards.whole → ∀ peer config, action = .restart peer config → config.snapshotThreshold = 0

namespace Simulates

variable {cluster after : Cluster M}

theorem initial (fresh : cluster.Initial boot)
    (whole : guards.whole → ∀ peer node, cluster.nodes.get peer = some node →
      node.config.snapshotThreshold = 0) : Simulates boot guards State.initial cluster := by
  refine ⟨Inv.initial _ _,fun peer node found => ?_,?_,?_⟩
  · obtain ⟨_,machine,rebuilt,named,peers,none⟩ := fresh.rebuilt found
    have applied : node.lastApplied = 0 ∧ StateMachine.appliedIndex node.machine = 0 := by
      cases rebuilt.recovered with
      | fresh _ machine reads =>
        rw [machine,reads]
        exact ⟨none,none⟩
      | folded snapshot held => cases held
    exact {
      named := by rw [rebuilt.config_eq,named]
      term := by rw [rebuilt.hard]; rfl
      role := by rw [rebuilt.role]; rfl
      vote := by rw [rebuilt.hard]; rfl
      log := by rw [rebuilt.log_eq]; exact Mirrors.empty
      folds := by rw [rebuilt.log_eq]; exact nofun
      commit := by rw [rebuilt.commitIndex,applied.1]; rfl
      applied := by rw [applied.1]; rfl
      member := by
        rw [rebuilt.membership]
        unfold RaftConfig.initialMembership
        rw [peers]
        rfl
      tally := fun role => by rw [rebuilt.role] at role; cases role
      ready := fun role => by rw [rebuilt.role] at role; cases role
      credit := fun role => by rw [rebuilt.role] at role; cases role
      durable := fun _ => by rw [applied.1,applied.2]
      whole := fun uncompacted => ⟨whole uncompacted peer node found,by rw [rebuilt.log_eq]; rfl⟩ }
  · rw [fresh.1]
    exact nofun
  · rw [fresh.2.1]
    exact nofun

section

variable (simulates : Simulates boot guards past cluster)
include simulates

/-- The cluster after one replica has acted, when its peer's records followed it. -/
theorem absorb {next : History} (moves : Moves (setting boot) guards peer past next)
    (tracks : Tracks M boot guards next peer final)
    (outbox : ∀ note ∈ final.outbox, Sent M boot guards next note)
    (handed : ∀ index entry, (index,entry) ∈ final.handed → next.handed peer index entry) :
    Simulates boot guards next (cluster.absorb peer final) := by
  obtain ⟨inv,grown⟩ := simulates.inv.moves moves
  refine ⟨inv,fun other node held => ?_,?_,?_⟩
  · rcases OrderedMap.insert_some _ held with ⟨rfl,rfl⟩ | ⟨apart,held⟩
    · exact { tracks with }
    · exact (simulates.nodes other node held).frame grown (moves.unmoved (Ne.symm apart))
  · exact List.forall_mem_append.mpr ⟨fun note old => (simulates.sent note old).mono grown,
      outbox⟩
  · intro other index entry member
    rcases List.mem_append.mp member with old | new
    · exact grown.handed _ _ _ (simulates.handed other index entry old)
    · obtain ⟨⟨_,_⟩,inside,same⟩ := List.mem_map.mp new
      cases same
      exact handed _ _ inside

variable (sound : cluster.Sound boot) (mode : guards.fixed ∨ guards.whole ∧ guards.Strict)
  (lawful : guards.durable → LawfulStateMachine M)
include sound mode lawful

theorem operation (found : cluster.nodes.get peer = some start)
    (legal : Legal M guards action start) (finished : Finished action start final)
    (mail : ∀ to_ note, action = .deliver to_ note →
      note ∈ cluster.sent ∧ note.recipient = start.config.id) :
    ∃ merged, Pursued boot guards action peer ⟨final,merged⟩ past := by
  have settled := sound.nodes peer start found
  have tracked := simulates.nodes peer start found
  have delivers : Delivers M boot guards past action peer := by
    intro to_ note mailed
    obtain ⟨posted,mine⟩ := mail to_ note mailed
    exact ⟨sound.sent note posted,mine.trans settled.id,simulates.sent note posted⟩
  have begun : Pursued boot guards action peer ⟨start,false⟩ past := by
    refine ⟨past,.refl,tracked,?_,?_,nofun⟩
    · rw [settled.outbox]
      exact nofun
    · rw [settled.handed]
      exact nofun
  have continued : ∀ before after, start.Kept before.node →
      Pursued boot guards action peer before past →
      NodeStep action start before after → Pursued boot guards action peer after past := by
    rintro before after kept ⟨_,moves,pursues⟩ moved
    obtain ⟨inv,grown⟩ := simulates.inv.moves moves
    have later : start.hard.term ≤ before.node.hard.term := by
      rw [← tracked.term,← pursues.tracks.term]
      exact grown.term peer
    obtain ⟨next,further,pursuedNext⟩ := moved.simulated inv pursues kept
      settled.initialMembership mode lawful legal later (delivers.mono grown)
    exact ⟨next,moves.trans further,pursuedNext⟩
  exact (finished.invariant (sound.received mail) settled.kept _ begun continued).2

theorem act (conforms : Conforms guards cluster action) (acted : cluster.act action = some after) :
    ∃ next, Moves (setting boot) guards action.peer past next ∧
      Simulates boot guards next after := by
  obtain ⟨start,final,found,rfl,outcome⟩ := sound.cases acted
  have settled := sound.nodes _ start found
  cases outcome with
  | ignored same =>
    subst same
    refine ⟨past,.refl,simulates.absorb .refl (simulates.nodes _ final found) ?_ ?_⟩
    · rw [settled.outbox]
      exact nofun
    · rw [settled.handed]
      exact nofun
  | operated finished mail =>
    obtain ⟨_,next,moves,pursues⟩ := simulates.operation sound mode lawful found
      (conforms.legal start found) finished mail
    exact ⟨next,moves,simulates.absorb moves pursues.tracks pursues.outbox pursues.handed⟩
  | restarted restarted =>
    obtain ⟨other,config,same,named,peers,built⟩ := restarted
    have rebuilt := new_rebuilt settled.sound.contiguous built
    obtain ⟨next,moves,tracks,_⟩ := (simulates.nodes _ start found).restart simulates.inv
      settled.sound lawful rebuilt (named.trans settled.id) (peers.trans settled.peers)
      (fun whole => conforms.whole whole other config same)
    refine ⟨next,moves,simulates.absorb moves tracks ?_ ?_⟩
    · rw [rebuilt.outbox]
      exact nofun
    · rw [rebuilt.handed]
      exact nofun

theorem run (run : Cluster.Run (Conforms guards) cluster after) :
    ∃ next, Evolves (setting boot) guards past next ∧
      Simulates boot guards next after ∧ after.Sound boot := by
  induction run with
  | refl => exact ⟨past,.refl,simulates,sound⟩
  | step _ admitted acted ih =>
    obtain ⟨_,evolved,simulated,stillSound⟩ := ih
    obtain ⟨next,moves,simulatedNext⟩ := simulated.act stillSound mode lawful admitted acted
    exact ⟨next,evolved.trans moves.evolves,simulatedNext,stillSound.act acted⟩

end

end Simulates

end Astrs.Raft
