/-
The generations of one node of a dataflow that a daemon hosts.

A restart or a replacement counts on from the node's record.  A coordinator's spawn and an added
node put a new record in its place, with the generation they were sent.
-/

import Mathlib.Data.List.Basic

namespace Astrs.Daemon

def u64Max : Nat := 18446744073709551615

structure NodeSpawnSpec where
  generation : Nat
  dynamic : Bool

/-- `live` stands for every state of a node that neither waits out a backoff nor has ended. -/
inductive NodeRunState
  | live
  | restarting
  | terminal
  deriving DecidableEq

structure NodeState where
  spec : NodeSpawnSpec
  runState : NodeRunState := .live

def nextGeneration (current : Nat) : Nat := if current < u64Max then current + 1 else current

namespace NodeState

def generation (node : NodeState) : Nat := node.spec.generation

def beginNextGeneration (node : NodeState) : NodeState :=
  { spec := { node.spec with generation := nextGeneration node.generation } }

/-- The counter only ever moves forward. -/
def setGeneration (node : NodeState) (generation : Nat) : NodeState :=
  if node.generation < generation then
    { node with spec := { node.spec with generation := generation } }
  else node

def replaceSpec (node : NodeState) (spec : NodeSpawnSpec) : NodeState := { node with spec := spec }

theorem generation_setGeneration (node : NodeState) (generation : Nat) :
    (node.setGeneration generation).generation = max node.generation generation := by
  unfold setGeneration
  split
  case isTrue above => exact (Nat.max_eq_right (Nat.le_of_lt above)).symm
  case isFalse below => exact (Nat.max_eq_left (Nat.le_of_not_lt below)).symm

end NodeState

/-- A restart that finds the node live is armed, and taken again when the node has ended. -/
inductive NodeRequest
  | spawn (spec : NodeSpawnSpec)
  | addNode (spec : NodeSpawnSpec) (start : Bool)
  | replaceNode (spec : NodeSpawnSpec)
  | restartNode (generation : Nat)
  | exited (restarts : Bool)
  | restartDue (generation : Nat)

/-- A node's record, and the generations of the processes spawned for it. -/
structure NodeSlot where
  node : Option NodeState := none
  spawned : List Nat := []

namespace NodeSlot

/-- Puts a record in and, unless the node attaches by itself, spawns its process. -/
def spawnNode (slot : NodeSlot) (node : NodeState) (start : Bool) : NodeSlot :=
  { node := some node
    spawned := if start && !node.spec.dynamic then slot.spawned ++ [node.generation]
      else slot.spawned }

def handle (slot : NodeSlot) (request : NodeRequest) : NodeSlot :=
  match request,slot.node with
  | .spawn spec,_ => slot.spawnNode { spec := spec } true
  | .addNode spec start,_ => slot.spawnNode { spec := spec } start
  | .replaceNode spec,some node =>
    let next := node.beginNextGeneration
    slot.spawnNode ((next.replaceSpec spec).setGeneration next.generation) true
  | .restartNode generation,some node =>
    if node.runState = .terminal then
      slot.spawnNode (node.beginNextGeneration.setGeneration generation) true
    else slot
  | .exited restarts,some node =>
    { slot with
      node := some { node with runState := if restarts then .restarting else .terminal } }
  | .restartDue generation,some node =>
    if node.generation = generation ∧ node.runState = .restarting then
      slot.spawnNode node.beginNextGeneration true
    else slot
  | _,none => slot

/-- A record put in place of another has a later generation. -/
def Ahead (slot : NodeSlot) : NodeRequest → Prop
  | .spawn spec | .addNode spec _ =>
    ∀ node, slot.node = some node → node.generation < spec.generation
  | _ => True

def AllAhead : NodeSlot → List NodeRequest → Prop
  | _,[] => True
  | slot,first :: rest => slot.Ahead first ∧ (slot.handle first).AllAhead rest

/-- Later, unless the counter is at its end. -/
def Later (earlier later : Nat) : Prop := earlier < later ∨ earlier = later ∧ u64Max ≤ later

/-- The processes so far were spawned in order, and none after the record's generation. -/
structure InOrder (slot : NodeSlot) : Prop where
  spawned : slot.spawned.Pairwise Later
  recorded : ∀ earlier ∈ slot.spawned, ∃ node, slot.node = some node ∧ earlier ≤ node.generation

variable {slot : NodeSlot}

section

variable (inOrder : slot.InOrder)
include inOrder

theorem InOrder.spawnNode {next : NodeState} (start : Bool)
    (later : ∀ node, slot.node = some node → ∀ past ≤ node.generation,
      Later past next.generation) : (slot.spawnNode next start).InOrder := by
  have after : ∀ past ∈ slot.spawned, Later past next.generation := by
    intro past mem
    obtain ⟨node,held,within⟩ := inOrder.recorded past mem
    exact later node held past within
  have old : ∀ past ∈ slot.spawned, past ≤ next.generation :=
    fun past mem => (after past mem).elim Nat.le_of_lt fun last => Nat.le_of_eq last.1
  unfold NodeSlot.spawnNode
  split
  case isTrue =>
    constructor
    · refine List.pairwise_append.mpr ⟨inOrder.spawned,List.pairwise_singleton _ _,?_⟩
      intro past mem last only
      rw [List.mem_singleton.mp only]
      exact after past mem
    · intro past mem
      rcases List.mem_append.mp mem with before | last
      · exact ⟨next,rfl,old past before⟩
      · exact ⟨next,rfl,Nat.le_of_eq (List.mem_singleton.mp last)⟩
  case isFalse => exact ⟨inOrder.spawned,fun past mem => ⟨next,rfl,old past mem⟩⟩

theorem InOrder.counts {node next : NodeState}
    (held : slot.node = some node) (counted : nextGeneration node.generation ≤ next.generation) :
    (slot.spawnNode next true).InOrder := by
  apply inOrder.spawnNode
  intro other same past within
  cases held.symm.trans same
  unfold nextGeneration at counted
  unfold Later
  split at counted <;> omega

theorem InOrder.step {request : NodeRequest}
    (ahead : slot.Ahead request) : (slot.handle request).InOrder := by
  unfold NodeSlot.handle
  split
  case h_1 | h_2 =>
    apply inOrder.spawnNode
    intro node held past within
    exact .inl (Nat.lt_of_le_of_lt within (ahead node held))
  case h_3 held =>
    apply inOrder.counts held
    rw [NodeState.generation_setGeneration]
    exact Nat.le_max_right _ _
  case h_4 held =>
    split
    · apply inOrder.counts held
      rw [NodeState.generation_setGeneration]
      exact Nat.le_max_left _ _
    · exact inOrder
  case h_5 held =>
    refine ⟨inOrder.spawned,fun past mem => ?_⟩
    obtain ⟨other,found,within⟩ := inOrder.recorded past mem
    cases held.symm.trans found
    exact ⟨_,rfl,within⟩
  case h_6 held =>
    split
    · exact inOrder.counts held (Nat.le_refl _)
    · exact inOrder
  case h_7 => exact inOrder

theorem InOrder.run (requests : List NodeRequest)
    (ahead : slot.AllAhead requests) : (requests.foldl handle slot).InOrder := by
  induction requests generalizing slot with
  | nil => exact inOrder
  | cons first rest ih => exact ih (inOrder.step ahead.1) ahead.2

end

/-- No generation is given twice, as long as a record is only replaced by one with a later
generation. -/
theorem generations_increase (requests : List NodeRequest) (ahead : AllAhead {} requests)
    (below : ∀ generation ∈ (requests.foldl handle {}).spawned, generation < u64Max) :
    (requests.foldl handle {}).spawned.Pairwise (· < ·) := by
  have fresh : InOrder {} := ⟨.nil,nofun⟩
  have inOrder := fresh.run requests ahead
  apply inOrder.spawned.imp_of_mem
  intro earlier later _ member increases
  have short := below later member
  unfold Later at increases
  omega

def restarted : List NodeRequest := [.spawn ⟨1,false⟩,.exited true,.restartDue 1]

theorem restart_increases : AllAhead {} restarted ∧
    (∀ generation ∈ (restarted.foldl handle {}).spawned, generation < u64Max) ∧
      (restarted.foldl handle {}).spawned.Pairwise (· < ·) :=
  have ahead : AllAhead {} restarted := ⟨nofun,trivial,trivial,trivial⟩
  ⟨ahead,by decide,generations_increase restarted ahead (by decide)⟩

def addedAgain : List NodeRequest := restarted ++ [.addNode ⟨1,false⟩ true]

/-- The node is added once more with the generation it was first spawned with. -/
theorem generation_repeated : (addedAgain.foldl handle {}).spawned = [1,2,1] := rfl

end NodeSlot

end Astrs.Daemon
