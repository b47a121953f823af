/-
Cycles of the dataflow graph.

Components are computed over the nodes; edges from virtual sources have no producer and
take no part, and parallel edges count once.  A diagnostic keeps the nodes of its
component and the edges it lists.
-/

import Astrs.Base.Components
import Astrs.Verify.Model

namespace Astrs.Graph

open Astrs.Base Astrs.Verify

abbrev Adjacency := OrderedMap NodeId (OrderedSet NodeId)

def connect (adjacency : Adjacency) (binding : EdgeKey × Edge) : Adjacency :=
  match binding.2.source.producerNode with
  | some producer => adjacency.adjust producer fun successors =>
    successors.insert binding.1.consumer
  | none => adjacency

def nodeAdjacency (graph : DataflowGraph) : Adjacency :=
  graph.edges.entries.foldl connect (graph.nodes.mapWithKey fun _ _ => OrderedSet.empty)

def successors (graph : DataflowGraph) (node : NodeId) : List NodeId :=
  (((nodeAdjacency graph).get node).map OrderedSet.elems).getD []

def nodeIds (graph : DataflowGraph) : List NodeId := graph.nodes.entries.map Prod.fst

/-- The strongly connected components; a visit gets one unit of fuel for each node. -/
def computeSccs (graph : DataflowGraph) : Option (List (List NodeId)) :=
  (Tarjan.run (successors graph) (nodeIds graph).length (nodeIds graph)).map Tarjan.components

/-- A warning about a cycle: its component and the edges that no pattern explains. -/
structure CycleDiagnostic where
  nodes : List NodeId
  uncorrelatedEdges : List EdgeKey
  deriving DecidableEq

def hasSelfLoop (edges : OrderedMap EdgeKey Edge) (node : NodeId) : Bool :=
  edges.entries.any fun binding =>
    decide (binding.1.consumer = node) && decide (binding.2.source.producerNode = some node)

def isInside (members : OrderedSet NodeId) (binding : EdgeKey × Edge) : Bool :=
  members.contains binding.1.consumer &&
    (binding.2.source.producerNode.any fun producer => members.contains producer)

def uncorrelatedInside (edges : OrderedMap EdgeKey Edge) (correlated : OrderedSet EdgeKey)
    (members : OrderedSet NodeId) : List EdgeKey :=
  ((edges.entries.filter (isInside members)).map Prod.fst).filter fun key =>
    !correlated.contains key

/-- A component that can hold a cycle: two members, or one that feeds itself. -/
def isCyclic (edges : OrderedMap EdgeKey Edge) (component : List NodeId) : Bool :=
  decide (2 ≤ (OrderedSet.ofList component).len) || component.head?.any (hasSelfLoop edges)

def diagnose (edges : OrderedMap EdgeKey Edge) (correlated : OrderedSet EdgeKey)
    (component : List NodeId) : Option CycleDiagnostic :=
  let uncorrelated := uncorrelatedInside edges correlated (OrderedSet.ofList component)
  if isCyclic edges component && !uncorrelated.isEmpty then
    some { nodes := component, uncorrelatedEdges := uncorrelated }
  else none

def cycleDiagnostics (sccs : List (List NodeId)) (edges : OrderedMap EdgeKey Edge)
    (correlated : OrderedSet EdgeKey) : List CycleDiagnostic :=
  sccs.filterMap (diagnose edges correlated)

end Astrs.Graph
