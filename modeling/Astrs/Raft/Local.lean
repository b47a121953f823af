/-
What a replica keeps by itself, whatever it is sent.

Its log stays contiguous, the stored term and vote are the ones it acts on, and the
configuration in force is the one its log and snapshot say.
-/

import Astrs.Raft.Operations

namespace Astrs.Raft

open Astrs.Base Raft.Membership RaftNode MemoryLog Numbered

variable {M : Type}

namespace Membership

variable {base other : Membership} {batch front back : List LogEntry}

theorem fromEntries_append (base : Membership) (front back : List LogEntry) :
    fromEntries base (front ++ back) = fromEntries (fromEntries base front) back :=
  List.foldl_append

theorem fromEntries_of_none (unchanging : ∀ entry ∈ batch, entry.config = none) :
    fromEntries base batch = base := by
  induction batch generalizing base with
  | nil => rfl
  | cons entry rest ih =>
    change fromEntries ((entry.config).getD base) rest = base
    rw [unchanging entry List.mem_cons_self]
    exact ih (fun item mem => unchanging item (List.mem_cons_of_mem entry mem))

variable {entry : LogEntry}

/-- Once a configuration entry is held, what lies below it does not matter. -/
theorem fromEntries_of_some (mem : entry ∈ batch)
    (changes : entry.config ≠ none) : fromEntries base batch = fromEntries other batch := by
  induction batch generalizing base other with
  | nil => cases mem
  | cons first rest ih =>
    change fromEntries ((first.config).getD base) rest =
      fromEntries ((first.config).getD other) rest
    cases config : first.config with
    | some => rfl
    | none =>
      refine ih ?_
      rcases List.mem_cons.mp mem with rfl | later
      · exact absurd config changes
      · exact later

theorem fromEntries_newest {membership : Membership}
    (changes : entry.config = some membership) (unchanging : ∀ item ∈ back, item.config = none) :
    fromEntries base (front ++ entry :: back) = membership := by
  rw [fromEntries_append]
  change fromEntries ((entry.config).getD _) back = membership
  rw [changes]
  exact fromEntries_of_none unchanging

theorem fromEntries_folded (base : Membership) (front back : List LogEntry) :
    fromEntries (fromEntries base (front ++ back)) back = fromEntries base (front ++ back) := by
  by_cases changed : ∃ entry ∈ back, entry.config ≠ none
  · obtain ⟨_,mem,changes⟩ := changed
    rw [fromEntries_append]
    exact fromEntries_of_some mem changes
  · push Not at changed
    exact fromEntries_of_none changed

end Membership

def MemoryLog.baseMembership (bootstrap : Membership) (log : MemoryLog) : Membership :=
  match log.snapshotMeta with
  | some info => info.membership
  | none => bootstrap

structure RaftNode.Sound (node : RaftNode M) : Prop where
  contiguous : node.log.Contiguous
  stored : node.log.hardState = node.hard
  member : node.membership =
    fromEntries (node.log.baseMembership node.config.initialMembership) node.log.entries

structure Envelope.Sound (envelope : Envelope) : Prop where
  wellFormed : envelope.message.WellFormed
  apart : envelope.sender ≠ envelope.recipient
  ordinary : ∀ term, envelope.message ≠ .timeoutNow term

/-- Every acknowledgement queued so far is of the replica's own term. -/
def AcksOwnTerm (node : RaftNode M) : Prop :=
  ∀ envelope ∈ node.outbox, ∀ term index, Acknowledges term envelope.message index →
    term = node.hard.term

/-- A replica and what it has queued since the operation started. -/
structure RaftNode.Kept (start node : RaftNode M) : Prop where
  sound : node.Sound
  config : node.config = start.config
  outbox : ∀ envelope ∈ node.outbox, envelope.Sound ∧ envelope.sender = start.config.id
  acks : AcksOwnTerm node
  silent : start.outbox = []

theorem RaftNode.Sound.saveHardState {node : RaftNode M} (sound : node.Sound) (term : Nat)
    (votedFor : Option PeerId) : (node.saveHardState term votedFor).Sound := by
  rw [saveHardState_eq]
  refine ⟨sound.contiguous,?_,sound.member⟩
  change (if _ then _ else _) = _
  split
  · rename_i same
    rw [sound.stored,same]
  · rfl

variable {log : MemoryLog}

/-- What a leader reads for one follower follows the index it announces. -/
theorem MemoryLog.Contiguous.entriesFrom_numbered (dense : log.Contiguous)
    {prev maxEntries : Nat} {batch : List LogEntry}
    (read : log.entriesFrom (prev + 1) maxEntries = .ok batch) :
    log.boundary ≤ prev ∧
      batch = (log.entries.drop (prev - log.boundary)).take maxEntries ∧
      Numbered prev batch := by
  unfold entriesFrom at read
  rw [firstIndex_eq] at read
  split at read
  · cases read
  · rename_i held
    cases read
    have shift : prev + 1 - (log.boundary + 1) = prev - log.boundary := by omega
    rw [shift]
    refine ⟨by omega,rfl,?_⟩
    have rest : Numbered (log.boundary + (prev - log.boundary))
        (log.entries.drop (prev - log.boundary)) := drop_any _ dense
    have whole : log.boundary + (prev - log.boundary) = prev := by omega
    rw [whole] at rest
    exact rest.take _

/-- A known term past zero lies between the boundary and the last index. -/
theorem MemoryLog.Contiguous.termAt_bounds (dense : log.Contiguous)
    {index term : Nat} (pos : index ≠ 0) (found : log.termAt index = some term) :
    log.boundary ≤ index ∧ index ≤ log.lastIndex := by
  have lastIndex := dense.lastIndex_eq
  have low := boundary_le_of_termAt pos found
  refine ⟨low,?_⟩
  rcases Nat.lt_or_eq_of_le low with past | edge
  · exact (dense.termAt_isSome_iff past).mp ⟨term,found⟩
  · omega

/-! ### One step -/

/-- What an operation may rely on about the message it handles. -/
def Received (action : Action) (start : RaftNode M) : Prop :=
  ∀ peer envelope, action = .deliver peer envelope →
    envelope.Sound ∧ envelope.recipient = start.config.id

variable {action : Action} {start node final : RaftNode M}

section Step

theorem member_merged (sound : node.Sound) {batch : List LogEntry} {membership : Membership}
    (same : membership = node.mergedMembership batch) :
    membership = fromEntries (node.log.baseMembership node.config.initialMembership)
      (node.log.merged batch).entries := by
  unfold mergedMembership at same
  split at same
  · exact same
  · rename_i unchanged
    rw [Bool.or_eq_true,not_or] at unchanged
    obtain ⟨agrees,plain⟩ := unchanged
    have whole : (node.log.merged batch).entries =
        node.log.entries ++ batch.drop (mergePoint node.log batch).1 := by
      unfold merged
      simp only [Bool.not_eq_true _ |>.mp agrees]
    rw [whole,fromEntries_append,← sound.member,same]
    refine (fromEntries_of_none fun entry mem => ?_).symm
    have notConfig := fun config => plain (List.any_eq_true.mpr ⟨entry,mem,config⟩)
    exact Option.not_isSome_iff_eq_none.mp notConfig

theorem Speakable.sound {moment : Moment M} {recipient : PeerId} {message : RaftMessage}
    (speakable : Speakable action start moment recipient message)
    (dense : moment.node.log.Contiguous) :
    message.WellFormed ∧ ∀ term, message ≠ .timeoutNow term := by
  cases speakable with
  | appendEntries prev prevLogTerm maxEntries batch _ _ read =>
    refine ⟨(dense.entriesFrom_numbered read).2.2,fun term same => ?_⟩
    cases same
  | preVoteRequest | preVoteResponse | voteRequest | voteRefused | voteGranted | appendRefused
  | appendAccepted | installSnapshot | snapshotCovered | snapshotInstalled =>
    refine ⟨trivial,fun term same => ?_⟩
    cases same

theorem Speakable.acks_own_term {moment : Moment M} {recipient : PeerId}
    {message : RaftMessage} (speakable : Speakable action start moment recipient message)
    {term index : Nat} (acknowledges : Acknowledges term message index) :
    term = moment.node.hard.term := by
  cases speakable <;> cases acknowledges <;> rfl

theorem Prompted.below (prompted : Prompted action start node)
    (sound : ∀ peer note, action = .deliver peer note → note.Sound)
    (below : start.hard.term < u64Max) : node.hard.term < u64Max := by
  rcases prompted with ⟨same,_⟩ | ⟨peer,note,term,mailed,message⟩
  · rw [same]
    exact below
  · exact absurd message ((sound peer note mailed).ordinary term)

variable [StateMachine M]

theorem NodeStep.kept {before after : Moment M} (moved : NodeStep action start before after)
    (received : Received action start) (kept : start.Kept before.node) : start.Kept after.node := by
  obtain ⟨sound,config,outbox,acks,silent⟩ := kept
  cases moved with
  | quiet | clock | resign | preStand | tally | win | pace | credit | advance | hand
  | drive | apply | spoil =>
    exact ⟨{ sound with },config,outbox,acks,silent⟩
  | adopt node merged term higher unsaid =>
    have saved := sound.saveHardState term none
    have settled := saveHardState_eq node term none
    simp only [settled] at saved ⊢
    refine ⟨{ saved with },config,outbox,fun _ mem => ?_,silent⟩
    rw [unsaid,silent] at mem
    cases mem
  | stand node merged voter prompted unsaid =>
    have saved := sound.saveHardState (Term.next node.hard.term) (some node.config.id)
    simp only [saveHardState_eq] at saved ⊢
    refine ⟨{ saved with },config,outbox,fun note mem => ?_,silent⟩
    change note ∈ node.outbox at mem
    rw [unsaid,silent] at mem
    cases mem
  | grant node merged peer note =>
    have saved := sound.saveHardState node.hard.term (some note.sender)
    simp only [saveHardState_eq] at saved ⊢
    exact ⟨saved,config,outbox,acks,silent⟩
  | append node merged payload =>
    obtain ⟨_,same,_⟩ := appended_eq node payload
    have sound : node.Sound := sound
    simp only [same]
    refine ⟨⟨?_,sound.stored,?_⟩,config,outbox,acks,silent⟩
    · refine append_iff.mpr ⟨sound.contiguous,?_⟩
      change Numbered (node.log.boundary + node.log.entries.length) _
      rw [← sound.contiguous.lastIndex_eq]
      exact cons_iff.mpr ⟨rfl,nil _⟩
    · change Option.getD _ node.membership = fromEntries _ (node.log.entries ++ _)
      rw [fromEntries_append]
      change _ = Option.getD _ (fromEntries (node.log.baseMembership _) _)
      rw [sound.member]
  | speak node merged recipient message addressed speakable =>
    refine ⟨{ sound with },config,List.forall_mem_append.mpr ⟨outbox,fun note new => ?_⟩,
      List.forall_mem_append.mpr ⟨acks,fun note new term index acknowledges => ?_⟩,silent⟩
    · cases List.mem_singleton.mp new
      obtain ⟨wellFormed,ordinary⟩ := speakable.sound sound.contiguous
      refine ⟨⟨wellFormed,?_,ordinary⟩,congrArg RaftConfig.id config⟩
      rcases addressed with other | ⟨peer,note,mailed,rfl⟩
      · exact Ne.symm other
      · obtain ⟨mail,mine⟩ := received peer note mailed
        change node.config.id ≠ note.sender
        rw [config,← mine]
        exact Ne.symm mail.apart
    · cases List.mem_singleton.mp new
      exact speakable.acks_own_term acknowledges
  | capture node merged lastTerm data log pos found read reason saved =>
    have sound : node.Sound := sound
    have same := saveSnapshot_eq sound.contiguous saved
    have low := boundary_le_of_termAt pos found
    subst same
    refine ⟨⟨?_,sound.stored,?_⟩,config,outbox,acks,silent⟩
    · have rest := drop_any (node.lastApplied - node.log.boundary) sound.contiguous
      have whole : node.log.boundary + (node.lastApplied - node.log.boundary) =
          node.lastApplied := by omega
      rw [whole] at rest
      exact rest
    · change node.membership = fromEntries node.membership
        (node.log.entries.drop (node.lastApplied - node.log.boundary))
      have folded := fromEntries_folded
        (node.log.baseMembership node.config.initialMembership)
        (node.log.entries.take (node.lastApplied - node.log.boundary))
        (node.log.entries.drop (node.lastApplied - node.log.boundary))
      rw [List.take_append_drop,← sound.member] at folded
      exact folded.symm
  | accept node peer note prev prevLogTerm batch leaderCommit membership pending
      mailed message role intact low high agrees same =>
      have numbered : Numbered prev batch := by
        have mail := (received peer note mailed).1.wellFormed
        rw [message] at mail
        exact mail
      exact ⟨⟨sound.contiguous.merged numbered low high,sound.stored,
        member_merged sound same⟩,config,outbox,acks,silent⟩
  | install =>
    exact ⟨⟨nil _,sound.stored,rfl⟩,config,outbox,acks,silent⟩

variable (finished : Finished action start final) (received : Received action start)
include finished received

/-- The invariant rule for an operation: what every step keeps holds at its end. -/
theorem Finished.invariant (kept : start.Kept start) (holds : Moment M → Prop)
    (initial : holds ⟨start,false⟩)
    (preserved : ∀ before after, start.Kept before.node → holds before →
      NodeStep action start before after → holds after) :
    start.Kept final ∧ ∃ merged, holds ⟨final,merged⟩ := by
  obtain ⟨merged,reached⟩ := finished
  have held : ∀ moment, NodeSteps action start ⟨start,false⟩ moment →
      start.Kept moment.node ∧ holds moment := by
    intro _ steps
    induction steps with
    | refl => exact ⟨kept,initial⟩
    | tail _ moved ih => exact ⟨moved.kept received ih.1,preserved _ _ ih.1 ih.2 moved⟩
  exact ⟨(held _ reached).1,merged,(held _ reached).2⟩

theorem Finished.kept (kept : start.Kept start) : start.Kept final :=
  (finished.invariant received kept (fun _ => True) trivial fun _ _ _ _ _ => trivial).1

end Step

inductive Recovered [StateMachine M] (log : MemoryLog) (machine restored : M) (reached : Nat) :
    Prop where
  | fresh : log.snapshot = none → restored = machine →
      reached = StateMachine.appliedIndex machine → Recovered log machine restored reached
  | folded (snapshot : Snapshot) : log.snapshot = some snapshot →
      StateMachine.restore machine snapshot.data = (restored,.ok ()) →
      reached = max snapshot.info.lastIndex (StateMachine.appliedIndex restored) →
      Recovered log machine restored reached

/-- A replica that follows in the stored term, from the index its machine has
durably reached. -/
structure Resumed [StateMachine M] (config : RaftConfig) (log : MemoryLog) (machine : M)
    (node : RaftNode M) : Prop where
  config_eq : node.config = config
  role : node.role = .follower
  hard : node.hard = log.hardState
  log_eq : node.log = log
  recovered : Recovered log machine node.machine node.lastApplied
  commitIndex : node.commitIndex = node.lastApplied
  outbox : node.outbox = []
  handed : node.handed = []
  taken : node.taken = []

/-- A new replica: resumed, with the membership of its log. -/
structure Rebuilt [StateMachine M] (config : RaftConfig) (log : MemoryLog) (machine : M)
    (node : RaftNode M) : Prop extends Resumed config log machine node where
  membership : node.membership =
    fromEntries (log.baseMembership config.initialMembership) log.entries

section Rebuild

variable [StateMachine M] {config : RaftConfig} {machine : M}

private theorem Resumed.rebuilt {resumed : RaftNode M} (facts : Resumed config log machine resumed)
    (dense : log.Contiguous)
    (made : (match recomputeMembership resumed with
      | .ok _ node => pure node
      | .error failure _ => throw failure : Except RaftError (RaftNode M)) = .ok node) :
    Rebuilt config log machine node := by
  have held : resumed.log.Contiguous := by
    rw [facts.log_eq]
    exact dense
  have computed := wp_recomputeMembership held
  unfold Ensures at computed
  split at computed
  · rename_i final outcome
    rw [outcome] at made
    cases made
    obtain ⟨_,rfl⟩ := computed
    refine { facts with membership := ?_ }
    rw [← facts.log_eq,← facts.config_eq]
    rfl
  · exact computed.elim

theorem new_rebuilt (dense : log.Contiguous)
    (built : RaftNode.new config log machine = .ok node) : Rebuilt config log machine node := by
  unfold RaftNode.new at built
  cases checked : config.validate with
  | error =>
    rw [checked] at built
    cases built
  | ok done =>
    rw [checked] at built
    cases kept : log.snapshot with
    | none =>
      simp only [kept,bind,Except.bind,pure,Except.pure] at built
      refine Resumed.rebuilt ?_ dense built
      split
      · rename_i ahead
        exact ⟨rfl,rfl,rfl,rfl,.fresh kept rfl rfl,Nat.max_eq_right (Nat.le_of_lt ahead),
          rfl,rfl,rfl⟩
      · rename_i level
        exact ⟨rfl,rfl,rfl,rfl,.fresh kept rfl (Nat.eq_zero_of_not_pos level).symm,rfl,rfl,rfl,rfl⟩
    | some snapshot =>
      cases outcome : (StateMachine.restore machine snapshot.data).2 with
      | error =>
        simp only [kept,outcome,bind,Except.bind] at built
        cases built
      | ok =>
        have restored : StateMachine.restore machine snapshot.data =
            ((StateMachine.restore machine snapshot.data).1,.ok ()) := by
          rw [← outcome]
        simp only [kept,outcome,bind,Except.bind,pure,Except.pure] at built
        refine Resumed.rebuilt ?_ dense built
        split
        · rename_i ahead
          have reached := Nat.max_eq_right (Nat.le_of_lt ahead)
          exact ⟨rfl,rfl,rfl,rfl,.folded snapshot kept restored reached.symm,reached,rfl,rfl,rfl⟩
        · rename_i level
          exact ⟨rfl,rfl,rfl,rfl,.folded snapshot kept restored
            (Nat.max_eq_left (Nat.le_of_not_lt level)).symm,rfl,rfl,rfl,rfl⟩

theorem Rebuilt.sound (rebuilt : Rebuilt config log machine node) (dense : log.Contiguous) :
    node.Sound := by
  refine ⟨?_,?_,?_⟩
  · rw [rebuilt.log_eq]
    exact dense
  · rw [rebuilt.log_eq,rebuilt.hard]
  · rw [rebuilt.log_eq,rebuilt.config_eq]
    exact rebuilt.membership

end Rebuild

/-! ### Whole runs -/

/-- A replica between operations: sound, and everything it queued handed over. -/
structure Settled (bootstrap : OrderedSet PeerId) (peer : PeerId) (node : RaftNode M) : Prop where
  sound : node.Sound
  id : node.config.id = peer
  peers : node.config.peers = bootstrap
  outbox : node.outbox = []
  handed : node.handed = []
  taken : node.taken = []

/-- A replica at the end of an action, with what it queued. -/
structure Yields (bootstrap : OrderedSet PeerId) (peer : PeerId) (node : RaftNode M) : Prop where
  sound : node.Sound
  id : node.config.id = peer
  peers : node.config.peers = bootstrap
  outbox : ∀ envelope ∈ node.outbox, envelope.Sound ∧ envelope.sender = peer
  acks : AcksOwnTerm node

structure Cluster.Sound (bootstrap : OrderedSet PeerId) (cluster : Cluster M) : Prop where
  nodes : ∀ peer node, cluster.nodes.get peer = some node → Settled bootstrap peer node
  sent : ∀ envelope ∈ cluster.sent, envelope.Sound

variable {boot : OrderedSet PeerId} {peer : PeerId} {cluster : Cluster M}

section

variable (settled : Settled boot peer start)
include settled

theorem Settled.initialMembership : start.config.initialMembership = ⟨boot⟩ := by
  unfold RaftConfig.initialMembership
  rw [settled.peers]

theorem Settled.kept : start.Kept start := by
  refine ⟨settled.sound,rfl,?_,?_,settled.outbox⟩
  · rw [settled.outbox]
    exact nofun
  · unfold AcksOwnTerm
    rw [settled.outbox]
    exact nofun

theorem Settled.yields (kept : start.Kept final) : Yields boot peer final := by
  refine ⟨kept.sound,?_,?_,fun note mem => ?_,kept.acks⟩
  · rw [kept.config,settled.id]
  · rw [kept.config,settled.peers]
  · rw [← settled.id]
    exact kept.outbox note mem

end

theorem Cluster.Sound.received (sound : cluster.Sound boot)
    (mail : ∀ peer note, action = .deliver peer note →
      note ∈ cluster.sent ∧ note.recipient = start.config.id) : Received action start := by
  intro peer note mailed
  obtain ⟨posted,mine⟩ := mail peer note mailed
  exact ⟨sound.sent note posted,mine⟩

theorem Cluster.Sound.absorb (sound : cluster.Sound boot)
    (yields : Yields boot peer final) : (cluster.absorb peer final).Sound boot := by
  refine ⟨fun other node held => ?_,?_⟩
  · rcases OrderedMap.insert_some _ held with ⟨rfl,rfl⟩ | ⟨_,held⟩
    · exact ⟨⟨yields.sound.contiguous,yields.sound.stored,yields.sound.member⟩,yields.id,
        yields.peers,rfl,rfl,rfl⟩
    · exact sound.nodes other node held
  · exact List.forall_mem_append.mpr ⟨sound.sent,fun note new => (yields.outbox note new).1⟩

section Runs

variable [StateMachine M] {after : Cluster M}

theorem Rebuilt.yields {config : RaftConfig} {machine : M}
    (rebuilt : Rebuilt config log machine final) (dense : log.Contiguous)
    (id : config.id = peer) (peers : config.peers = boot) : Yields boot peer final := by
  refine ⟨rebuilt.sound dense,?_,?_,?_,?_⟩
  · rw [rebuilt.config_eq,id]
  · rw [rebuilt.config_eq,peers]
  · rw [rebuilt.outbox]
    exact nofun
  · unfold AcksOwnTerm
    rw [rebuilt.outbox]
    exact nofun

theorem Cluster.Initial.rebuilt (initial : cluster.Initial boot)
    (found : cluster.nodes.get peer = some node) :
    ∃ config machine, Rebuilt config new machine node ∧ config.id = peer ∧
      config.peers = boot ∧ StateMachine.appliedIndex machine = 0 := by
  obtain ⟨_,_,_,built⟩ := initial
  obtain ⟨config,machine,made,rest⟩ := built peer node found
  exact ⟨config,machine,new_rebuilt new_contiguous made,rest⟩

namespace Cluster.Sound

theorem initial (initial : cluster.Initial boot) : cluster.Sound boot := by
  refine ⟨fun peer node found => ?_,?_⟩
  · obtain ⟨_,_,rebuilt,id,peers,_⟩ := initial.rebuilt found
    obtain ⟨sound,nodeId,nodePeers,_⟩ := rebuilt.yields new_contiguous id peers
    exact ⟨sound,nodeId,nodePeers,rebuilt.outbox,rebuilt.handed,rebuilt.taken⟩
  · rw [initial.1]
    exact nofun

theorem yields (sound : cluster.Sound boot) (found : cluster.nodes.get peer = some start)
    (outcome : Outcome cluster.sent action start final) : Yields boot peer final := by
  have settled := sound.nodes peer start found
  cases outcome with
  | ignored same =>
    subst same
    exact settled.yields settled.kept
  | operated finished mail => exact settled.yields (finished.kept (sound.received mail) settled.kept)
  | restarted restarted =>
    obtain ⟨_,_,_,id,peers,built⟩ := restarted
    have dense := settled.sound.contiguous
    exact (new_rebuilt dense built).yields dense (id.trans settled.id)
      (peers.trans settled.peers)

section

variable (sound : cluster.Sound boot) (acted : cluster.act action = some after)
include sound acted

theorem cases : ∃ start final, cluster.nodes.get action.peer = some start ∧
      after = cluster.absorb action.peer final ∧ Outcome cluster.sent action start final :=
  act_cases acted (fun peer node found => (sound.nodes peer node found).sound.contiguous)
    fun note mem => (sound.sent note mem).wellFormed

/-- A replica after an action: one the action left alone, or the one it happened to. -/
theorem node_cases (found : after.nodes.get peer = some node) :
    peer ≠ action.peer ∧ cluster.nodes.get peer = some node ∨
      peer = action.peer ∧ ∃ start final, cluster.nodes.get peer = some start ∧
        node = final.drained ∧ Outcome cluster.sent action start final := by
  obtain ⟨start,final,startFound,rfl,outcome⟩ := sound.cases acted
  rcases OrderedMap.insert_some _ found with ⟨rfl,rfl⟩ | ⟨different,found⟩
  · exact .inr ⟨rfl,start,final,startFound,rfl,outcome⟩
  · exact .inl ⟨Ne.symm different,found⟩

theorem act : after.Sound boot := by
  obtain ⟨_,_,found,rfl,outcome⟩ := sound.cases acted
  exact sound.absorb (sound.yields found outcome)

end

theorem run {allowed : Cluster M → Action → Prop} {last : Cluster M}
    (initial : cluster.Initial boot) (run : Cluster.Run allowed cluster last) :
    last.Sound boot :=
  run.invariant (Sound.initial initial) fun _ _ _ sound _ acted => sound.act acted

end Cluster.Sound

end Runs

end Astrs.Raft
