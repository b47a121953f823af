/-
Latency budgets: the constraint system that bounds the age of a message.

The age at a node is the worst over its inputs; one variable for each node upstream of the
target is pinned to that maximum.  Times are integers: nanoseconds times the least common
multiple of the rates' numerators.
-/

import Astrs.Verify.Rates

namespace Astrs.Verify

open Astrs.Base

def u128Limit : Nat := 340282366920938463463374607431768211456

def i128Limit : Nat := 170141183460469231731687303715884105728

def nanosPerSec : Nat := 1000000000

def maxTimeScale : Nat := 1000000000

/-- Why no system is given to the solver. -/
inductive NotAttempted where
  | nothingToProve
  | noDerivedRate (node : NodeId) (why : Indeterminate)
  | scaleOverflow
  deriving DecidableEq

structure Scope where
  nodes : OrderedSet NodeId
  channels : OrderedSet EdgeKey

/-- The walk upstream: the nodes still to visit, the next one first, and the scope so far. -/
structure Upstream where
  worklist : List NodeId
  nodes : OrderedSet NodeId
  channels : OrderedSet EdgeKey

variable (model : Model)

def Model.producerOn (key : EdgeKey) : Option NodeId :=
  (model.channels.get key).bind fun channel => channel.producer.nodeId

def visitInput (state : Upstream) (key : EdgeKey) : Upstream :=
  { state with
    channels := state.channels.insert key
    worklist :=
      match model.producerOn key with
      | some upstream =>
        if state.nodes.contains upstream then state.worklist else upstream :: state.worklist
      | none => state.worklist }

/-- A node met for the first time adds its inputs. -/
def visitNode (state : Upstream) (id : NodeId) : Upstream :=
  match model.nodes.get id with
  | none => { state with nodes := state.nodes.insert id }
  | some node =>
    node.inputs.foldl (visitInput model) { state with nodes := state.nodes.insert id }

def walkUpstream (model : Model) : Nat → Upstream → Option Scope
  | 0,_ => none
  | fuel + 1,state =>
    match state.worklist with
    | [] => some { nodes := state.nodes, channels := state.channels }
    | id :: rest =>
      if state.nodes.contains id then walkUpstream model fuel { state with worklist := rest }
      else walkUpstream model fuel (visitNode model { state with worklist := rest } id)

def Model.inputCount : Nat := (model.nodes.entries.flatMap fun binding => binding.2.inputs).length

def Scope.around (target : EdgeKey) : Option Scope := do
  let channel ← model.channels.get target
  walkUpstream model (model.inputCount + 2)
    { worklist := channel.producer.nodeId.toList
      nodes := OrderedSet.empty
      channels := OrderedSet.empty.insert target }

def Scope.firstIndeterminate (scope : Scope) (model : RatedModel) :
    Option (NodeId × Indeterminate) :=
  scope.nodes.elems.findSome? fun id => (model.rates.reason id).map fun why => (id,why)

def checkedMul (left right : Nat) : Option Nat :=
  if left * right < u128Limit then some (left * right) else none

def lcm (left right : Nat) : Option Nat :=
  if left = 0 ∨ right = 0 then some 0 else checkedMul (left / left.gcd right) right

def widen (model : RatedModel) (scale : Nat) (key : EdgeKey) : Option Nat :=
  match model.arrivalRate key with
  | none => none
  | some rate =>
    if rate.isZero then some scale
    else
      match lcm scale rate.numerator with
      | none => none
      | some wider => if maxTimeScale < wider then none else some wider

def Scope.timeScale (scope : Scope) (model : RatedModel) : Option Nat :=
  scope.channels.elems.foldlM (widen model) 1

/-- Capacity times period, on the scaled axis. -/
def scaledDelay (model : RatedModel) (scale : Nat) (key : EdgeKey) : Option Int := do
  let channel ← model.channels.get key
  let rate ← model.arrivalRate key
  if rate.isZero then none
  else do
    let perSecond ← checkedMul rate.denominator nanosPerSec
    let perMessage ← checkedMul perSecond (scale / rate.numerator)
    let total ← checkedMul perMessage channel.effectiveCapacity
    if total < i128Limit then some (total : Int) else none

def ageName (id : NodeId) : Text := ['a','g','e','!'] ++ id

abbrev Ages := OrderedMap NodeId VarId

abbrev Delays := OrderedMap EdgeKey Int

def addDelay (model : RatedModel) (scale : Nat) (delays : Delays) (key : EdgeKey) : Option Delays :=
  (scaledDelay model scale key).map fun delay => delays.insert key delay

def declareAge (state : ConstraintSystem × Ages) (id : NodeId) : ConstraintSystem × Ages :=
  let (age,system) := state.1.intVar (ageName id)
  (system,state.2.insert id age)

def declareAges (scope : Scope) : ConstraintSystem × Ages :=
  scope.nodes.elems.foldl declareAge (ConstraintSystem.new,OrderedMap.empty)

def arrivalTerm (key : EdgeKey) (ages : Ages) (delay : Int) : Term :=
  match (model.producerOn key).bind ages.get with
  | some age => (Term.var age).plusConstant delay
  | none => Term.ofInt delay

/-- The constraints of a node while its inputs are gone through. -/
structure Recurrence where
  system : ConstraintSystem
  equalities : List Formula
  complete : Bool

def encodeInput (ages : Ages) (delays : Delays) (age : VarId) (state : Recurrence) (key : EdgeKey) :
    Recurrence :=
  match delays.get key with
  | none => { state with complete := false }
  | some delay =>
    let via := arrivalTerm model key ages delay
    { state with
      system := state.system.assert (Formula.ge (Term.var age) via)
      equalities := state.equalities ++ [Formula.eq (Term.var age) via] }

/-- One node of the recurrence; `none` when nothing pins its age. -/
def encodeNode (ages : Ages) (delays : Delays) (state : ConstraintSystem × Bool) (id : NodeId) :
    Option (ConstraintSystem × Bool) :=
  match ages.get id, model.nodes.get id with
  | some age,some node =>
    if node.inputs.isEmpty then
      some (state.1.assert (Formula.eq (Term.var age) (Term.ofInt 0)),state.2)
    else
      let inputs := node.inputs.foldl (encodeInput model ages delays age)
        { system := state.1, equalities := [], complete := state.2 }
      if inputs.equalities.isEmpty then none
      else some (inputs.system.assert (Formula.any inputs.equalities),inputs.complete)
  | _,_ => some state

def encodeRecurrence (system : ConstraintSystem) (model : Model) (scope : Scope) (ages : Ages)
    (delays : Delays) : Option ConstraintSystem :=
  match scope.nodes.elems.foldlM (encodeNode model ages delays) (system,true) with
  | some (encoded,true) => some encoded
  | some (_,false) => none
  | none => none

def encodeViolation (model : RatedModel) (scope : Scope) (delays : Delays) (target : EdgeKey)
    (scaledBudget : Int) : Except NotAttempted ConstraintSystem :=
  let (declared,ages) := declareAges scope
  match encodeRecurrence declared model.toModel scope ages delays, delays.get target with
  | none,_ => .error .scaleOverflow
  | some _,none => .error .nothingToProve
  | some system,some targetDelay =>
    .ok (system.assert (Formula.gt (arrivalTerm model.toModel target ages targetDelay)
      (Term.ofInt scaledBudget)))

def encodeScaled (model : RatedModel) (scope : Scope) (scale : Nat) (target : EdgeKey)
    (budget : Int) : Except NotAttempted ConstraintSystem :=
  match scope.channels.elems.foldlM (addDelay model scale) OrderedMap.empty with
  | none => .error .scaleOverflow
  | some delays =>
    if budget * scale < -i128Limit ∨ i128Limit ≤ budget * scale then .error .scaleOverflow
    else encodeViolation model scope delays target (budget * scale)

/-- The system for one budget, in nanoseconds, that is given to the solver. -/
def dischargeOne (model : RatedModel) (target : EdgeKey) (budget : Int) :
    Except NotAttempted ConstraintSystem :=
  match Scope.around model.toModel target with
  | none => .error .nothingToProve
  | some scope =>
    match scope.firstIndeterminate model, scope.timeScale model with
    | some (node,why),_ => .error (.noDerivedRate node why)
    | none,none => .error .scaleOverflow
    | none,some scale => encodeScaled model scope scale target budget

end Astrs.Verify
