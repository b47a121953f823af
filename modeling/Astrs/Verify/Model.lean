/-
The dataflow graph, its service and action pairs, and the verification model.

Names are kept as their characters.  Service times, timeouts, machines and the window
of the rates are left out, as nothing here reads them.
-/

import Mathlib.Data.List.Sort
import Mathlib.Data.Prod.Lex
import Astrs.Verify.Constraint
import Astrs.Verify.Scale

namespace Astrs.Verify

open Astrs.Base

abbrev NodeId := Text

abbrev PortName := Text

/-- An edge is known by the input it feeds. -/
structure EdgeKey where
  consumer : NodeId
  input : PortName

namespace EdgeKey

def toPair (key : EdgeKey) : NodeId ×ₗ PortName := toLex (key.consumer,key.input)

theorem toPair_injective : Function.Injective toPair := by
  intro left right same
  have parts := Prod.ext_iff.mp (toLex.injective same)
  cases left
  cases right
  exact congrArg₂ EdgeKey.mk parts.1 parts.2

instance : LinearOrder EdgeKey := LinearOrder.lift' toPair toPair_injective

def display (key : EdgeKey) : Text := key.consumer ++ '.' :: key.input

end EdgeKey

/-! ### The graph -/

inductive EdgeSource where
  | nodeOutput (node : NodeId) (output : PortName)
  | virtual (source : Text)
  deriving DecidableEq

def EdgeSource.producerNode : EdgeSource → Option NodeId
  | .nodeOutput node _ => some node
  | .virtual _ => none

inductive QueuePolicy where
  | dropOldest
  | backpressure
  deriving DecidableEq

structure QueueConfig where
  size : Nat
  policy : QueuePolicy
  deriving DecidableEq

structure Edge where
  source : EdgeSource
  queue : QueueConfig
  deriving DecidableEq

inductive PatternKind where
  | service
  | action
  deriving DecidableEq

inductive Role where
  | client
  | server
  deriving DecidableEq

inductive Pattern where
  | serviceServer
  | serviceClient
  | actionServer
  | actionClient
  deriving DecidableEq

def Pattern.kindRole : Pattern → PatternKind × Role
  | .serviceServer => (.service,.server)
  | .serviceClient => (.service,.client)
  | .actionServer => (.action,.server)
  | .actionClient => (.action,.client)

structure OutputPort where
  typeUrn : Option Manifests.Urn
  deriving DecidableEq

structure InputPort where
  typeUrn : Option Manifests.Urn
  deriving DecidableEq

structure GraphNode where
  outputs : OrderedMap PortName OutputPort
  inputs : OrderedMap PortName InputPort
  pattern : Option Pattern
  deriving DecidableEq

namespace GraphNode

def inputType (node : GraphNode) (port : PortName) : Option Manifests.Urn :=
  (node.inputs.get port).bind InputPort.typeUrn

def outputType (node : GraphNode) (port : PortName) : Option Manifests.Urn :=
  (node.outputs.get port).bind OutputPort.typeUrn

def plain (outputs inputs : List PortName) (pattern : Option Pattern) : GraphNode :=
  { outputs := OrderedMap.ofList (outputs.map fun port => (port,{ typeUrn := none }))
    inputs := OrderedMap.ofList (inputs.map fun port => (port,{ typeUrn := none }))
    pattern := pattern }

end GraphNode

structure DataflowGraph where
  nodes : OrderedMap NodeId GraphNode
  edges : OrderedMap EdgeKey Edge
  strictTypes : Bool
  typeRules : List Manifests.TypeRule

/-- A client and a server with an edge between them, and the edges each way. -/
structure PatternPair where
  kind : PatternKind
  client : NodeId
  server : NodeId
  clientToServer : List EdgeKey
  serverToClient : List EdgeKey
  deriving DecidableEq

namespace PatternPair

def hasRequestEdge (pair : PatternPair) : Bool := !pair.clientToServer.isEmpty

def hasResponseEdge (pair : PatternPair) : Bool := !pair.serverToClient.isEmpty

def isFullyWired (pair : PatternPair) : Bool := pair.hasRequestEdge && pair.hasResponseEdge

end PatternPair

namespace DataflowGraph

variable (graph : DataflowGraph)

def edgesInto (node : NodeId) : List EdgeKey :=
  (graph.edges.entries.filter fun binding => decide (binding.1.consumer = node)).map Prod.fst

def edgesFrom (node : NodeId) : List EdgeKey := (graph.edges.entries.filter fun binding =>
    decide (binding.2.source.producerNode = some node)).map Prod.fst

variable {node : NodeId} {key : EdgeKey}

theorem mem_edgesInto {graph : DataflowGraph} : key ∈ graph.edgesInto node ↔
      (∃ edge, graph.edges.get key = some edge) ∧ key.consumer = node := by
  unfold edgesInto
  simp only [List.mem_map,List.mem_filter,decide_eq_true_eq,Prod.exists,exists_and_right,
    exists_eq_right,OrderedMap.get_eq_some_iff]

theorem mem_edgesFrom {graph : DataflowGraph} : key ∈ graph.edgesFrom node ↔
      ∃ edge, graph.edges.get key = some edge ∧ edge.source.producerNode = some node := by
  unfold edgesFrom
  simp only [List.mem_map,List.mem_filter,decide_eq_true_eq,Prod.exists,exists_and_right,
    exists_eq_right,OrderedMap.get_eq_some_iff]

theorem edgesInto_nodup (node : NodeId) : (graph.edgesInto node).Nodup :=
  (graph.edges.sorted.imp ne_of_lt).sublist (List.filter_sublist.map Prod.fst)

def edgesBetween (source target : NodeId) : List EdgeKey :=
  (graph.edgesFrom source).filter fun key => decide (key.consumer = target)

def playing (kind : PatternKind) (role : Role) : List NodeId :=
  (graph.nodes.entries.filter fun binding =>
    decide (binding.2.pattern.map Pattern.kindRole = some (kind,role))).map Prod.fst

def pairOf (kind : PatternKind) (client server : NodeId) : Option PatternPair :=
  let clientToServer := graph.edgesBetween client server
  let serverToClient := graph.edgesBetween server client
  if clientToServer.isEmpty && serverToClient.isEmpty then none
  else
    some { kind := kind
           client := client
           server := server
           clientToServer := clientToServer
           serverToClient := serverToClient }

def pairsOfKind (kind : PatternKind) : List PatternPair :=
  (graph.playing kind .client).flatMap fun client =>
    (graph.playing kind .server).filterMap fun server => graph.pairOf kind client server

def patternPairs : List PatternPair :=
  (graph.pairsOfKind .service ++ graph.pairsOfKind .action).insertionSort fun left right =>
    toLex (left.client,left.server) ≤ toLex (right.client,right.server)

end DataflowGraph

inductive Producer where
  | node (node : NodeId) (output : PortName)
  | timer (source : Text) (rate : Rate)
  | aperiodic (source : Text)
  deriving DecidableEq

def Producer.nodeId : Producer → Option NodeId
  | .node id _ => some id
  | .timer _ _ => none
  | .aperiodic _ => none

/-- Messages appear without a node having to fire. -/
def Producer.isSpontaneous : Producer → Bool
  | .node _ _ => false
  | .timer _ _ => true
  | .aperiodic _ => true

def virtualRate (source : Text) : Option Rate :=
  match Manifests.recognize source with
  | some (.ok parsed) => Rate.fromVirtualSource parsed
  | some (.error _) => none
  | none => none

def producerOf : EdgeSource → Producer
  | .nodeOutput node output => .node node output
  | .virtual source =>
    match virtualRate source with
    | some rate => .timer source rate
    | none => .aperiodic source

structure Channel where
  producer : Producer
  declaredCapacity : Nat
  policy : QueuePolicy
  effectiveCapacity : Nat
  deriving DecidableEq

/-- How far the backpressure policy buffers beyond the declared size. -/
def backpressureOverbuffer : Nat := 10

def effectiveCapacity (policy : QueuePolicy) (declared : Nat) : Nat :=
  match policy with
  | .dropOldest => declared
  | .backpressure => min (declared * backpressureOverbuffer) (u64Limit - 1)

def Channel.fromEdge (edge : Edge) : Channel :=
  { producer := producerOf edge.source
    declaredCapacity := edge.queue.size
    policy := edge.queue.policy
    effectiveCapacity := Verify.effectiveCapacity edge.queue.policy edge.queue.size }

structure Node where
  inputs : List EdgeKey
  produces : List EdgeKey
  deriving DecidableEq

/-- The declared types on the two ends of a channel. -/
structure EdgeTypes where
  produced : Option Manifests.Urn
  consumed : Option Manifests.Urn
  deriving DecidableEq

def EdgeTypes.both (types : EdgeTypes) : Option (Manifests.Urn × Manifests.Urn) := do
  let produced ← types.produced
  let consumed ← types.consumed
  return (produced,consumed)

def outputTypeOf (nodes : OrderedMap NodeId GraphNode) : EdgeSource → Option Manifests.Urn
  | .nodeOutput node output => (nodes.get node).bind fun producer => producer.outputType output
  | .virtual _ => none

def inputTypeOf (nodes : OrderedMap NodeId GraphNode) (key : EdgeKey) : Option Manifests.Urn :=
  (nodes.get key.consumer).bind fun consumer => consumer.inputType key.input

def collectEdgeTypes (graph : DataflowGraph) : OrderedMap EdgeKey EdgeTypes :=
  graph.edges.mapWithKey fun key edge =>
    { produced := outputTypeOf graph.nodes edge.source, consumed := inputTypeOf graph.nodes key }

structure Model where
  nodes : OrderedMap NodeId Node
  channels : OrderedMap EdgeKey Channel
  patternPairs : List PatternPair
  typeRules : List Manifests.TypeRule
  strictTypes : Bool
  edgeTypes : OrderedMap EdgeKey EdgeTypes

def Model.fromGraph (graph : DataflowGraph) : Model :=
  { nodes := graph.nodes.mapWithKey fun id _ =>
      { inputs := graph.edgesInto id, produces := graph.edgesFrom id }
    channels := graph.edges.mapWithKey fun _ edge => Channel.fromEdge edge
    patternPairs := graph.patternPairs
    typeRules := graph.typeRules
    strictTypes := graph.strictTypes
    edgeTypes := collectEdgeTypes graph }

theorem fromGraph_channel {graph : DataflowGraph} {key : EdgeKey} {channel : Channel} :
    (Model.fromGraph graph).channels.get key = some channel ↔
      ∃ edge, graph.edges.get key = some edge ∧ Channel.fromEdge edge = channel := by
  unfold Model.fromGraph
  rw [OrderedMap.get_mapWithKey,Option.map_eq_some_iff]

theorem producerOf_eq_node {source : EdgeSource} {id : NodeId} :
    source.producerNode = some id ↔ ∃ output, producerOf source = .node id output := by
  cases source with
  | nodeOutput => simp [EdgeSource.producerNode,producerOf]
  | virtual =>
    constructor
    · exact nofun
    · rintro ⟨_,made⟩
      dsimp only [producerOf] at made
      split at made <;> cases made

end Astrs.Verify
