/-
The families of runs the results are about.

Each restriction is a check on the cluster an action is about to act on, so it
can be evaluated along a concrete run.  `conforms` turns the checks into what
the refinement asks for, and `exists_run` turns an evaluated run into a run.
-/

import Astrs.Raft.Refinement

namespace Astrs.Raft

open Astrs.Base Astrs.Consensus Cluster

variable {M : Type}

/-! ### Restrictions -/

/-- Every replica's term is below the top of its counter. -/
def Cluster.below (cluster : Cluster M) : Bool :=
  cluster.nodes.entries.all fun binding => decide (binding.2.hard.term < u64Max)

def Action.keepsMembers : Action → Bool
  | .proposeMembership .. => false
  | _ => true

/-- The action compacts no log and turns no automatic compaction on. -/
def Action.keepsLog : Action → Bool
  | .takeSnapshot _ => false
  | .restart _ config => decide (config.snapshotThreshold = 0)
  | _ => true

def Cluster.uncompacted (cluster : Cluster M) : Bool :=
  cluster.nodes.entries.all fun binding => decide (binding.2.config.snapshotThreshold = 0)

def Cluster.offered (cluster : Cluster M) : Action → Option (RaftNode M × Nat × Snapshot)
  | .deliver peer envelope =>
    match envelope.message, cluster.nodes.get peer with
    | .installSnapshot term snapshot,some node =>
      if node.hard.term ≤ term then some (node,term,snapshot) else none
    | _,_ => none
  | _ => none

/-- A snapshot above the commit index reaches only a log that does not go past
it, or one that disagrees with it at its last index. -/
def Cluster.installsCleanly (cluster : Cluster M) (action : Action) : Bool :=
  match cluster.offered action with
  | none => true
  | some (node,_,snapshot) =>
    decide (snapshot.info.lastIndex ≤ node.commitIndex) ||
      decide (node.log.lastIndex ≤ snapshot.info.lastIndex) ||
      (match node.log.termAt snapshot.info.lastIndex with
        | some held => decide (held ≠ snapshot.info.lastTerm)
        | none => false)

def Cluster.reportsCleanly (cluster : Cluster M) (action : Action) : Bool :=
  match cluster.offered action with
  | none => true
  | some (node,term,snapshot) =>
    decide (node.commitIndex < snapshot.info.lastIndex) ||
      decide (node.log.lastIndex ≤ node.commitIndex) || decide (node.log.lastTerm = term)

/-- A leader is asked to change the members only once it is ready and has no
uncommitted configuration entry. -/
def Cluster.reconfiguresCleanly (cluster : Cluster M) : Action → Bool
  | .proposeMembership peer _ =>
    match cluster.nodes.get peer with
    | some node =>
      !node.role.isLeader || node.isReady && node.log.entries.all fun entry =>
          !entry.isConfig || decide (entry.index ≤ node.commitIndex)
    | none => true
  | _ => true

def Permits (check : Cluster M → Action → Bool) (cluster : Cluster M) (action : Action) : Prop :=
  check cluster action = true

section Checks

variable {cluster : Cluster M} {action : Action} {peer : PeerId} {node : RaftNode M}

theorem Cluster.term_lt (below : cluster.below = true)
    (found : cluster.nodes.get peer = some node) : node.hard.term < u64Max :=
  of_decide_eq_true (List.all_eq_true.mp below _ (OrderedMap.get_eq_some_iff.mp found))

theorem Cluster.threshold_eq (uncompacted : cluster.uncompacted = true)
    (found : cluster.nodes.get peer = some node) : node.config.snapshotThreshold = 0 :=
  of_decide_eq_true
    (List.all_eq_true.mp uncompacted _ (OrderedMap.get_eq_some_iff.mp found))

theorem Cluster.offered_eq {mail : Envelope} {term : Nat} {snapshot : Snapshot}
    (mailed : action = .deliver peer mail)
    (message : mail.message = .installSnapshot term snapshot)
    (found : cluster.nodes.get action.peer = some node) (current : node.hard.term ≤ term) :
    cluster.offered action = some (node,term,snapshot) := by
  subst mailed
  change cluster.nodes.get peer = some node at found
  simp only [offered,message,found,if_pos current]

variable {guards : Guards}

theorem conforms (below : cluster.below = true) (fixed : guards.fixed → action.keepsMembers = true)
    (whole : guards.whole → action.keepsLog = true)
    (install : guards.install → ¬ guards.whole → cluster.installsCleanly action = true)
    (report : guards.report → ¬ guards.whole → cluster.reportsCleanly action = true)
    (reconfigure : guards.reconfigure → cluster.reconfiguresCleanly action = true) :
    Conforms guards cluster action := by
  refine ⟨fun node found => ?_,?_⟩
  · refine ⟨cluster.term_lt below found,?_,?_,?_,?_,?_⟩
    · rintro held peer change rfl
      cases fixed held
    · rintro held peer rfl
      cases whole held
    · intro held partial_ _ _ term _ mailed message current _
      have clean := install held partial_
      simp only [installsCleanly,offered_eq mailed message found current,
        Bool.or_eq_true,decide_eq_true_eq] at clean
      rcases clean with (covered | short) | differs
      · omega
      · exact .inl short
      · split at differs
        · rename_i term known
          exact .inr ⟨term,of_decide_eq_true differs,known⟩
        · cases differs
    · intro held partial_ _ _ _ _ mailed message current _
      have clean := report held partial_
      simp only [reportsCleanly,offered_eq mailed message found current,
        Bool.or_eq_true,decide_eq_true_eq] at clean
      rcases clean with (ahead | short) | same
      · omega
      · exact .inl short
      · exact .inr same
    · rintro held peer change rfl leads
      have clean := reconfigure held
      change cluster.nodes.get peer = some node at found
      simp only [reconfiguresCleanly,found,leads,Role.isLeader,Bool.not_true,
        Bool.false_or,Bool.and_eq_true] at clean
      refine ⟨clean.1,fun entry mem config => ?_⟩
      have passes := List.all_eq_true.mp clean.2 entry mem
      rw [config,Bool.not_true,Bool.false_or] at passes
      exact of_decide_eq_true passes
  · rintro held peer config rfl
    exact of_decide_eq_true (whole held)

variable [StateMachine M]

theorem refined (guards : Guards) {boot : OrderedSet PeerId}
    {check : Cluster M → Action → Bool} {first middle last : Cluster M}
    (fresh : first.Initial boot) (uncompacted : guards.whole → first.uncompacted = true)
    (mode : guards.fixed ∨ guards.whole ∧ guards.Strict)
    (lawful : guards.durable → LawfulStateMachine M)
    (sound : ∀ cluster action, check cluster action = true → Conforms guards cluster action)
    (before : Cluster.Run (Permits check) first middle)
    (after : Cluster.Run (Permits check) middle last) :
    ∃ history next, Simulates boot guards history middle ∧ middle.Sound boot ∧
      Simulates boot guards next last ∧ last.Sound boot ∧
      Evolves (setting boot) guards history next := by
  have start : Simulates boot guards State.initial first :=
    Simulates.initial fresh fun whole peer node found =>
      first.threshold_eq (uncompacted whole) found
  obtain ⟨history,_,simulates,soundMiddle⟩ :=
    start.run (Cluster.Sound.initial fresh) mode lawful (before.mono sound)
  obtain ⟨next,evolved,simulatesLast,soundLast⟩ :=
    simulates.run soundMiddle mode lawful (after.mono sound)
  exact ⟨history,next,simulates,soundMiddle,simulatesLast,soundLast,evolved⟩

end Checks

/-! ### Evaluated runs -/

section Evaluate

variable [StateMachine M]

def Cluster.start (machine : M) : List RaftConfig → Except RaftError (Cluster M)
  | [] => .ok { nodes := .empty, sent := [], handed := [], taken := [] }
  | config :: rest => do
    let cluster ← start machine rest
    let node ← RaftNode.new config MemoryLog.new machine
    pure { cluster with nodes := cluster.nodes.insert config.id node }

section

variable {machine : M} {cluster : Cluster M} {configs : List RaftConfig}

theorem Cluster.start_cons {config : RaftConfig} {rest : List RaftConfig}
    (started : start machine (config :: rest) = .ok cluster) :
    ∃ before node, start machine rest = .ok before ∧
      RaftNode.new config MemoryLog.new machine = .ok node ∧
      cluster = { before with nodes := before.nodes.insert config.id node } := by
  obtain ⟨before,earlier,added⟩ := bind_ok started
  obtain ⟨node,built,done⟩ := bind_ok added
  cases done
  exact ⟨before,node,earlier,built,rfl⟩

theorem Cluster.start_initial
    {boot : OrderedSet PeerId} (started : start machine configs = .ok cluster)
    (peers : ∀ config ∈ configs, config.peers = boot)
    (unused : StateMachine.appliedIndex machine = 0) : cluster.Initial boot := by
  induction configs generalizing cluster with
  | nil =>
    cases started
    exact ⟨rfl,rfl,rfl,nofun⟩
  | cons config rest ih =>
    obtain ⟨_,_,earlier,built,rfl⟩ := start_cons started
    obtain ⟨sent,handed,taken,nodes⟩ := ih earlier
      fun item mem => peers item (List.mem_cons_of_mem config mem)
    refine ⟨sent,handed,taken,fun peer found held => ?_⟩
    rcases OrderedMap.insert_some _ held with ⟨same,rfl⟩ | ⟨_,held⟩
    · exact ⟨config,machine,built,same,peers config List.mem_cons_self,unused⟩
    · exact nodes peer found held

theorem Cluster.start_uncompacted (started : start machine configs = .ok cluster)
    (whole : ∀ config ∈ configs, config.snapshotThreshold = 0) : cluster.uncompacted = true := by
  induction configs generalizing cluster with
  | nil =>
    cases started
    rfl
  | cons config rest ih =>
    obtain ⟨before,_,earlier,built,rfl⟩ := start_cons started
    have uncompacted := ih earlier
      fun item mem => whole item (List.mem_cons_of_mem config mem)
    refine List.all_eq_true.mpr fun ⟨peer,held⟩ mem => ?_
    have found := OrderedMap.get_eq_some_iff.mpr mem
    rcases OrderedMap.insert_some _ found with ⟨_,rfl⟩ | ⟨_,found⟩
    · have rebuilt := new_rebuilt MemoryLog.new_contiguous built
      simp only [rebuilt.config_eq,whole config List.mem_cons_self,decide_true]
    · exact decide_eq_true (before.threshold_eq uncompacted found)

end

def Cluster.play (check : Cluster M → Action → Bool) (machine : M) (configs : List RaftConfig)
    (actions : List Action) : Option (Cluster M) :=
  match start machine configs with
  | .ok cluster => cluster.follow check actions
  | .error _ => none

section

variable (check : Cluster M → Action → Bool) (machine : M) (configs : List RaftConfig)
  (actions : List Action)
include check machine configs actions

private theorem exists_started_run (goal : Cluster M → Prop)
    (passed : ∃ last, play check machine configs actions = some last ∧ goal last) :
    ∃ first last, start machine configs = .ok first ∧
      Cluster.Run (Permits check) first last ∧ goal last := by
  obtain ⟨last,played,reached⟩ := passed
  unfold play at played
  cases started : start machine configs with
  | error =>
    rw [started] at played
    cases played
  | ok first =>
    rw [started] at played
    exact ⟨first,last,rfl,run_of_follow played,reached⟩

theorem exists_run {boot : OrderedSet PeerId} (goal : Cluster M → Prop)
    (peers : ∀ config ∈ configs, config.peers = boot)
    (unused : StateMachine.appliedIndex machine = 0)
    (passed : ∃ last, play check machine configs actions = some last ∧ goal last) :
    ∃ first last, first.Initial boot ∧ Cluster.Run (Permits check) first last ∧ goal last := by
  obtain ⟨first,last,started,run,reached⟩ :=
    exists_started_run check machine configs actions goal passed
  exact ⟨first,last,start_initial started peers unused,run,reached⟩

end

end Evaluate

/-- Short timers without jitter, so that two ticks make a replica stand. -/
def sampleConfig (peers : List PeerId) (id : PeerId) : RaftConfig :=
  { id := id
    peers := OrderedSet.ofList peers
    electionTimeoutTicks := 2
    electionJitterTicks := 0
    heartbeatTicks := 1
    tickInterval := 1
    maxEntriesPerAppend := 10
    snapshotThreshold := 0
    preVote := false
    seed := 0 }

def sampleConfigs (peers : List PeerId) : List RaftConfig := peers.map (sampleConfig peers)

theorem sampleConfigs_peers (peers : List PeerId) :
    ∀ config ∈ sampleConfigs peers, config.peers = OrderedSet.ofList peers := by
  intro _ mem
  obtain ⟨_,_,rfl⟩ := List.mem_map.mp mem
  rfl

theorem sampleConfigs_whole (peers : List PeerId) :
    ∀ config ∈ sampleConfigs peers, config.snapshotThreshold = 0 := by
  intro _ mem
  obtain ⟨_,_,rfl⟩ := List.mem_map.mp mem
  rfl

theorem exists_sample_run (check : Cluster Register → Action → Bool) (peers : List PeerId)
    (actions : List Action) (goal : Cluster Register → Prop) (passed : ∃ last,
      play check (Register.mk []) (sampleConfigs peers) actions = some last ∧ goal last) :
    ∃ first last, first.Initial (OrderedSet.ofList peers) ∧ first.uncompacted = true ∧
      Cluster.Run (Permits check) first last ∧ goal last := by
  obtain ⟨first,last,started,run,reached⟩ :=
    exists_started_run check (Register.mk []) (sampleConfigs peers) actions goal passed
  exact ⟨first,last,start_initial started (sampleConfigs_peers peers) rfl,
    start_uncompacted started (sampleConfigs_whole peers),run,reached⟩

theorem sampleConfigs_map_peers (peers : List PeerId) {change : RaftConfig → RaftConfig}
    (kept : ∀ config, (change config).peers = config.peers) :
    ∀ config ∈ (sampleConfigs peers).map change, config.peers = OrderedSet.ofList peers := by
  intro _ mem
  obtain ⟨sample,inside,rfl⟩ := List.mem_map.mp mem
  rw [kept,sampleConfigs_peers peers sample inside]

/-- Two ticks and one vote make a replica the leader of term one. -/
def electFirst : List Action :=
  [.tick 1,.tick 1,.deliver 2 ⟨1,2,.voteRequest 1 0 0⟩,.deliver 1 ⟨2,1,.voteResponse 1 true⟩]

/-- The leader then commits the entry it opens its term with. -/
def commitFirst : List Action :=
  electFirst ++ [.deliver 2 ⟨1,2,.appendEntries 1 0 0 [⟨1,1,.noop⟩] 0⟩,
    .deliver 1 ⟨2,1,.appendEntriesResponse 1 true 1 0 0⟩]

/-- What is asked of a replica is evaluated, and is no when it does not exist. -/
instance decidableHeld {α : Type} (found : Option α) (goal : α → Prop) [DecidablePred goal] :
    Decidable (∃ value, found = some value ∧ goal value) :=
  match found with
  | none => isFalse (by simp)
  | some value => decidable_of_iff (goal value) (by simp)

instance decidableBothHeld {α : Type} (found another : Option α) (goal : α → α → Prop)
    [∀ value, DecidablePred (goal value)] :
    Decidable (∃ value other, found = some value ∧ another = some other ∧ goal value other) :=
  decidable_of_iff (∃ value, found = some value ∧ ∃ other, another = some other ∧ goal value other)
    (by simp only [exists_and_left])

end Astrs.Raft
