/-
A cluster of replicas and a network that loses, repeats and reorders.

A message stays in `sent` once queued, so delivering one is a choice of any message ever
sent and losing it is never choosing it.
-/

import Astrs.Raft.Node

namespace Astrs.Raft

open Astrs.Base

variable {M : Type}

structure Cluster (M : Type) where
  nodes : OrderedMap PeerId (RaftNode M)
  sent : List Envelope
  handed : List (PeerId × Nat × LogEntry)
  taken : List (PeerId × Capture)

inductive Action where
  | tick (peer : PeerId)
  | propose (peer : PeerId) (command : Bytes)
  | proposeMembership (peer : PeerId) (change : MembershipChange)
  | takeSnapshot (peer : PeerId)
  | deliver (peer : PeerId) (envelope : Envelope)
  | restart (peer : PeerId) (config : RaftConfig)

/-- The replica after a caller has taken its messages and applied entries. -/
def RaftNode.drained (node : RaftNode M) : RaftNode M :=
  { node with outbox := [], applied := [], handed := [], taken := [] }

namespace Cluster

/-- Puts a replica back after an operation, collecting what it queued. -/
def absorb (cluster : Cluster M) (peer : PeerId) (node : RaftNode M) : Cluster M :=
  { nodes := cluster.nodes.insert peer node.drained
    sent := cluster.sent ++ node.outbox
    handed := cluster.handed ++ node.handed.map (fun entry => (peer,entry))
    taken := cluster.taken ++ node.taken.map (fun capture => (peer,capture)) }

/-- Runs one operation of one replica.  A failed operation leaves the replica as
far as it got. -/
def perform {α : Type} (cluster : Cluster M) (peer : PeerId) (operation : NodeM M α) :
    Option (Cluster M) :=
  (cluster.nodes.get peer).map fun node => cluster.absorb peer (leaves operation node)

variable [StateMachine M]

/-- The cluster after one action, when the action is possible: the replica runs,
a delivered message was sent, and a restart keeps the replica's id and bootstrap
peers. -/
def act (cluster : Cluster M) : Action → Option (Cluster M)
  | .tick peer => cluster.perform peer tick
  | .propose peer command => cluster.perform peer (propose command)
  | .proposeMembership peer change => cluster.perform peer (proposeMembership change)
  | .takeSnapshot peer => cluster.perform peer takeSnapshot
  | .deliver peer envelope =>
    if envelope ∈ cluster.sent then cluster.perform peer (step envelope) else none
  | .restart peer config =>
    (cluster.nodes.get peer).bind fun node =>
      if config.id = node.config.id ∧ config.peers = node.config.peers then
        match RaftNode.new config node.intoParts.1 node.intoParts.2 with
        | .ok restarted => some (cluster.absorb peer restarted)
        | .error _ => none
      else none

/-- A cluster nobody has used: every replica built over an empty log and a
machine that has applied nothing, all with the same bootstrap peers. -/
def Initial (bootstrap : OrderedSet PeerId) (cluster : Cluster M) : Prop :=
  cluster.sent = [] ∧ cluster.handed = [] ∧ cluster.taken = [] ∧
    ∀ peer node, cluster.nodes.get peer = some node → ∃ (config : RaftConfig) (machine : M),
        RaftNode.new config MemoryLog.new machine = .ok node ∧
          config.id = peer ∧ config.peers = bootstrap ∧ StateMachine.appliedIndex machine = 0

inductive Run (allowed : Cluster M → Action → Prop) : Cluster M → Cluster M → Prop where
  | refl (cluster : Cluster M) : Run allowed cluster cluster
  | step {first middle last : Cluster M} {action : Action} :
      Run allowed first middle → allowed middle action → middle.act action = some last →
        Run allowed first last

variable {allowed : Cluster M → Action → Prop} {first last : Cluster M}

theorem Run.trans {middle : Cluster M}
    (before : Run allowed first middle) (after : Run allowed middle last) :
    Run allowed first last := by
  induction after with
  | refl => exact before
  | step _ admitted acted ih => exact .step ih admitted acted

theorem Run.mono {weaker : Cluster M → Action → Prop} (run : Run allowed first last)
    (weaken : ∀ cluster action, allowed cluster action → weaker cluster action) :
    Run weaker first last := by
  induction run with
  | refl => exact .refl _
  | step _ admitted acted ih => exact .step ih (weaken _ _ admitted) acted

theorem Run.invariant
    {holds : Cluster M → Prop} (run : Run allowed first last) (initial : holds first)
    (preserved : ∀ before action after, holds before → allowed before action →
      before.act action = some after → holds after) : holds last := by
  induction run with
  | refl => exact initial
  | step _ admitted acted ih => exact preserved _ _ _ ih admitted acted

/-- Follows a list of actions, stopping at the first one that is not allowed or
not possible. -/
def follow (check : Cluster M → Action → Bool) : Cluster M → List Action → Option (Cluster M)
  | cluster,[] => some cluster
  | cluster,action :: rest =>
    if check cluster action then
      match cluster.act action with
      | some next => follow check next rest
      | none => none
    else none

theorem run_of_follow {check : Cluster M → Action → Bool} {actions : List Action}
    (followed : follow check first actions = some last) :
    Run (fun cluster action => check cluster action = true) first last := by
  induction actions generalizing first with
  | nil =>
    cases followed
    exact .refl _
  | cons action rest ih =>
    unfold follow at followed
    split at followed
    · rename_i admitted
      split at followed
      · rename_i next acted
        exact (Run.step (.refl first) admitted acted).trans (ih followed)
      · cases followed
    · cases followed

end Cluster

end Astrs.Raft
