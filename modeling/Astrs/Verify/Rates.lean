/-
Firing rates, derived from the timers and the declared sources.

Nodes on a feedback cycle, sources without a declared rate and readers of an aperiodic
source have none, and neither has anything they feed.
-/

import Astrs.Base.Sweep
import Astrs.Graph.Scc

namespace Astrs.Verify

open Astrs.Base

inductive Indeterminate where
  | undeclaredSource
  | aperiodicSource
  | feedbackCycle
  | upstreamIndeterminate
  | rateOverflow
  deriving DecidableEq

structure DerivedRates where
  rates : OrderedMap NodeId Rate
  indeterminate : OrderedMap NodeId Indeterminate
  deriving DecidableEq

namespace DerivedRates

def empty : DerivedRates := { rates := .empty, indeterminate := .empty }

variable (derived : DerivedRates)

def rateOf (node : NodeId) : Option Rate := derived.rates.get node

def reason (node : NodeId) : Option Indeterminate := derived.indeterminate.get node

def arrivalRate (channel : Channel) : Option Rate :=
  match channel.producer with
  | .timer _ rate => some rate
  | .aperiodic _ => none
  | .node node _ => derived.rateOf node

def isSettled (node : NodeId) : Bool := (derived.rateOf node).isSome || (derived.reason node).isSome

def withRate (node : NodeId) (rate : Rate) : DerivedRates :=
  { derived with rates := derived.rates.insert node rate }

def withReason (node : NodeId) (reason : Indeterminate) : DerivedRates :=
  { derived with indeterminate := derived.indeterminate.insert node reason }

end DerivedRates

/-- What one look at a node concludes. -/
inductive Settled where
  | rate (rate : Rate)
  | indeterminate (reason : Indeterminate)
  | pending

/-- Adds the rates on the remaining inputs to a total, noting whether one is still unknown. -/
def settleFrom (channels : OrderedMap EdgeKey Channel) (derived : DerivedRates) :
    List EdgeKey → Rate → Bool → Settled
  | [],total,pending => if pending then .pending else .rate total
  | key :: keys,total,pending =>
    match channels.get key with
    | none => settleFrom channels derived keys total pending
    | some channel =>
      match channel.producer with
      | .aperiodic _ => .indeterminate .aperiodicSource
      | .timer _ rate =>
        match total.checkedAdd rate with
        | some sum => settleFrom channels derived keys sum pending
        | none => .indeterminate .rateOverflow
      | .node node _ =>
        if (derived.reason node).isSome then .indeterminate .upstreamIndeterminate
        else
          match derived.rateOf node with
          | some rate =>
            match total.checkedAdd rate with
            | some sum => settleFrom channels derived keys sum pending
            | none => .indeterminate .rateOverflow
          | none => settleFrom channels derived keys total true

variable (graph : DataflowGraph)

def settle (channels : OrderedMap EdgeKey Channel) (derived : DerivedRates) (id : NodeId) :
    Settled :=
  settleFrom channels derived (graph.edgesInto id) Rate.zero false

def addComponent (cyclic : OrderedSet NodeId) (component : List NodeId) : OrderedSet NodeId :=
  if 1 < component.length then component.foldl OrderedSet.insert cyclic else cyclic

def addSelfLoop (cyclic : OrderedSet NodeId) (binding : EdgeKey × Edge) : OrderedSet NodeId :=
  if binding.2.source.producerNode = some binding.1.consumer then
    cyclic.insert binding.1.consumer
  else cyclic

/-- The nodes that take part in a feedback cycle. -/
def cyclicNodes : OrderedSet NodeId := graph.edges.entries.foldl addSelfLoop
    (((Graph.computeSccs graph).getD []).foldl addComponent OrderedSet.empty)

def seed (declared : OrderedMap NodeId Rate) (derived : DerivedRates)
    (binding : NodeId × GraphNode) : DerivedRates :=
  if (derived.reason binding.1).isSome then derived
  else if binding.2.inputs.entries.isEmpty then
    match declared.get binding.1 with
    | some rate => derived.withRate binding.1 rate
    | none => derived.withReason binding.1 .undeclaredSource
  else derived

def relax (channels : OrderedMap EdgeKey Channel) (derived : DerivedRates) (id : NodeId) :
    Option DerivedRates :=
  if derived.isSettled id then none
  else
    match settle graph channels derived id with
    | .rate rate => some (derived.withRate id rate)
    | .indeterminate reason => some (derived.withReason id reason)
    | .pending => none

def giveUp (derived : DerivedRates) (id : NodeId) : DerivedRates :=
  if derived.isSettled id then derived else derived.withReason id .upstreamIndeterminate

def markCyclic : DerivedRates :=
  (cyclicNodes graph).elems.foldl (fun derived id => derived.withReason id .feedbackCycle) .empty

def seedSources (declared : OrderedMap NodeId Rate) : DerivedRates :=
  graph.nodes.entries.foldl (seed declared) (markCyclic graph)

def derive (channels : OrderedMap EdgeKey Channel) (declared : OrderedMap NodeId Rate) :
    DerivedRates :=
  (Graph.nodeIds graph).foldl giveUp
    (Sweep.passes (relax graph channels) (Graph.nodeIds graph) (graph.nodes.len + 1)
      (seedSources graph declared))

/-- The model with the rates derived for a profile that declares some of the sources' rates. -/
structure RatedModel extends Model where
  rates : DerivedRates

/-- What a model holds if it can be built. -/
def RatedModel.build (declared : OrderedMap NodeId Rate) : RatedModel :=
  { Model.fromGraph graph with
    rates := derive graph (Model.fromGraph graph).channels declared }

def RatedModel.arrivalRate (model : RatedModel) (key : EdgeKey) : Option Rate :=
  (model.channels.get key).bind model.rates.arrivalRate

end Astrs.Verify
