/-
Deadlock freedom: the constraint system, and what it decides.

The system asks for any self-supporting set of channels and something it blocks; it is
compared with the least set of channels that can carry a message.
-/

import Astrs.Base.Petri
import Astrs.Verify.Model

namespace Astrs.Verify

open Astrs.Base List Formula ConstraintSystem OrderedMap DataflowGraph
open OrderedMap (get_eq_some_iff)

/-! ### The encoding -/

def actionStatusDepth : Nat := 3

/-- One way the graph can deadlock. -/
inductive Mode where
  | nodeStarved (node : NodeId)
  | correlationUnwired (client server : NodeId) (kind : PatternKind)
  | correlationStarved (client server : NodeId) (channel : EdgeKey) (requestLeg : Bool)
  | statusDepth (client : NodeId) (channel : EdgeKey) (declared : Nat)
  deriving DecidableEq

/-- The variable `starved!key`: the channel never carries a message. -/
def starvedName (key : EdgeKey) : Text := ['s','t','a','r','v','e','d','!'] ++ key.display

def wiredName (pair : PatternPair) : Text :=
  ['w','i','r','e','d','!'] ++ (pair.client ++ '~' :: pair.server)

/-- The variable `capacity!key`: the declared depth of the channel. -/
def capacityName (key : EdgeKey) : Text := ['c','a','p','a','c','i','t','y','!'] ++ key.display

abbrev StarvedVars := OrderedMap EdgeKey VarId

structure Encoding where
  system : ConstraintSystem
  starved : StarvedVars
  modes : List (Mode × Formula)

def declareStarved (state : ConstraintSystem × StarvedVars) (binding : EdgeKey × Channel) :
    ConstraintSystem × StarvedVars :=
  let (id,system) := state.1.boolVar (starvedName binding.1)
  (system,state.2.insert binding.1 id)

/-- A place fed by a transition without input places can always be marked. -/
def assertSpontaneous (starved : StarvedVars) (system : ConstraintSystem)
    (binding : EdgeKey × Channel) : ConstraintSystem :=
  if binding.2.producer.isSpontaneous then
    match starved.get binding.1 with
    | some id => system.assert (boolVar id).not
    | none => system
  else system

def allStarved (starved : StarvedVars) (node : Node) : Formula :=
  all ((node.inputs.filterMap starved.get).map boolVar)

/-- A place stays empty only if every transition that produces it is disabled. -/
def assertPlace (starved : StarvedVars) (node : Node) (system : ConstraintSystem)
    (produced : EdgeKey) : ConstraintSystem :=
  match starved.get produced with
  | none => system
  | some place =>
    if node.inputs.isEmpty then system.assert (boolVar place).not
    else system.assert ((boolVar place).implies (allStarved starved node))

def assertNode (starved : StarvedVars) (system : ConstraintSystem) (binding : NodeId × Node) :
    ConstraintSystem :=
  binding.2.produces.foldl (assertPlace starved binding.2) system

def nodeMode (starved : StarvedVars) (binding : NodeId × Node) : Option (Mode × Formula) :=
  if binding.2.inputs.isEmpty then none
  else some (.nodeStarved binding.1,allStarved starved binding.2)

def legModes (starved : StarvedVars) (pair : PatternPair) (requestLeg : Bool)
    (keys : List EdgeKey) : List (Mode × Formula) :=
  keys.filterMap fun key =>
    (starved.get key).map fun place =>
      (.correlationStarved pair.client pair.server key requestLeg,boolVar place)

/-- The depth of a channel on which an action answers. -/
def encodeStatus (model : Model) (pair : PatternPair)
    (state : ConstraintSystem × List (Mode × Formula)) (key : EdgeKey) :
    ConstraintSystem × List (Mode × Formula) :=
  match model.channels.get key with
  | none => state
  | some channel =>
    let (capacity,system) := state.1.intVar (capacityName key)
    (system.assert (eq (Term.var capacity) (Term.ofInt channel.declaredCapacity)),
      state.2 ++ [(.statusDepth pair.client key channel.declaredCapacity,
        lt (Term.var capacity) (Term.ofInt actionStatusDepth))])

/-- A correlated wait: its wiring, its two legs, and the depth of an action's status. -/
def encodePair (model : Model) (starved : StarvedVars)
    (state : ConstraintSystem × List (Mode × Formula)) (pair : PatternPair) :
    ConstraintSystem × List (Mode × Formula) :=
  let (wired,system) := state.1.boolVar (wiredName pair)
  let asserted := system.assert
    (if pair.isFullyWired then boolVar wired else (boolVar wired).not)
  let modes := state.2 ++
    [(.correlationUnwired pair.client pair.server pair.kind,(boolVar wired).not)] ++
    legModes starved pair true pair.clientToServer ++
    legModes starved pair false pair.serverToClient
  if pair.kind = .action then
    pair.serverToClient.foldl (encodeStatus model pair) (asserted,modes)
  else (asserted,modes)

def declareAll (model : Model) : ConstraintSystem × StarvedVars :=
  model.channels.entries.foldl declareStarved (new,empty)

def encodeSiphon (model : Model) : ConstraintSystem :=
  let (declared,starved) := declareAll model
  let spontaneous := model.channels.entries.foldl (assertSpontaneous starved) declared
  model.nodes.entries.foldl (assertNode starved) spontaneous

/-- The modes, and the rules of the correlations. -/
def encodeModes (model : Model) : ConstraintSystem × List (Mode × Formula) :=
  let starved := (declareAll model).2
  model.patternPairs.foldl (encodePair model starved)
    (encodeSiphon model,model.nodes.entries.filterMap (nodeMode starved))

def encode (model : Model) : Encoding :=
  let (correlated,modes) := encodeModes model
  { system := correlated.assert (Formula.any (modes.map Prod.snd))
    starved := (declareAll model).2
    modes := modes }

/-- The channels that can carry a message. -/
inductive Model.Live (model : Model) : EdgeKey → Prop
  | spontaneous {key : EdgeKey} {channel : Channel} (held : model.channels.get key = some channel)
      (spontaneous : channel.producer.isSpontaneous = true) : Live model key
  | source {key : EdgeKey} {channel : Channel} {id : NodeId} {output : PortName} {node : Node}
      (held : model.channels.get key = some channel) (producer : channel.producer = .node id output)
      (found : model.nodes.get id = some node) (idle : node.inputs = []) : Live model key
  | fed {key input : EdgeKey} {channel : Channel} {id : NodeId} {output : PortName} {node : Node}
      (held : model.channels.get key = some channel) (producer : channel.producer = .node id output)
      (found : model.nodes.get id = some node) (member : input ∈ node.inputs)
      (live : Live model input) : Live model key

/-- A firing: a virtual source, a node without inputs, or a node on one event.  A node
emits on any of the channels it feeds. -/
inductive Model.Firing (model : Model) where
  | spontaneous (key : EdgeKey) (channel : Channel) (held : model.channels.get key = some channel)
      (spontaneous : channel.producer.isSpontaneous = true)
  | source (id : NodeId) (node : Node) (found : model.nodes.get id = some node)
      (idle : node.inputs = []) (emits : EdgeKey → Bool)
      (within : ∀ key, emits key = true → key ∈ node.produces)
  | event (id : NodeId) (node : Node) (found : model.nodes.get id = some node) (input : EdgeKey)
      (member : input ∈ node.inputs) (emits : EdgeKey → Bool)
      (within : ∀ key, emits key = true → key ∈ node.produces)

def Model.net (model : Model) : Net EdgeKey model.Firing where
  pre
    | .event _ _ _ input _ _ _,place => if place = input then 1 else 0
    | _,_ => 0
  post
    | .spontaneous key _ _ _,place => if place = key then 1 else 0
    | .source _ _ _ _ emits _,place => if emits place then 1 else 0
    | .event _ _ _ _ _ emits _,place => if emits place then 1 else 0

/-- A node with inputs that no event can ever reach. -/
def Model.NodeBlocked (model : Model) : Prop :=
  ∃ id node, model.nodes.get id = some node ∧ node.inputs ≠ [] ∧
    ∀ key ∈ node.inputs, ¬ model.Live key

/-- A correlation that is not wired both ways, or has a leg that never carries a message. -/
def Model.PairBlocked (model : Model) : Prop :=
  ∃ pair ∈ model.patternPairs, pair.isFullyWired = false ∨
    ∃ key ∈ pair.clientToServer ++ pair.serverToClient, ¬ model.Live key

def Model.StatusShallow (model : Model) : Prop :=
  ∃ pair ∈ model.patternPairs, pair.kind = .action ∧ ∃ key ∈ pair.serverToClient,
    ∃ channel, model.channels.get key = some channel ∧ channel.declaredCapacity < actionStatusDepth

def Model.Deadlocks (model : Model) : Prop :=
  model.NodeBlocked ∨ model.PairBlocked ∨ model.StatusShallow

/-! ### What the system says -/

variable {model : Model} {point : VarId → Int} {key : EdgeKey}

section Meaning

def Model.Marked (model : Model) (assignment : VarId → Int) (key : EdgeKey) : Prop :=
  (∃ channel, model.channels.get key = some channel) ∧ assignment (starvedName key) ≠ 0

def Model.AllMarked (model : Model) (assignment : VarId → Int) (node : Node) : Prop :=
  ∀ key ∈ node.inputs, (∃ channel, model.channels.get key = some channel) →
    assignment (starvedName key) ≠ 0

theorem declareStarved_satisfies (entries : List (EdgeKey × Channel))
    (state : ConstraintSystem × StarvedVars) :
    (entries.foldl declareStarved state).1.Satisfies point ↔ state.1.Satisfies point :=
  foldl_unchanged declareStarved (fun state => state.1.Satisfies point)
    (fun _ _ => satisfies_declare) entries state

theorem declareStarved_get (entries : List (EdgeKey × Channel))
    (state : ConstraintSystem × StarvedVars) (key : EdgeKey) :
    (entries.foldl declareStarved state).2.get key =
      if key ∈ entries.map Prod.fst then some (starvedName key) else state.2.get key := by
  rw [← get_foldl_insert (entries.map Prod.fst) starvedName state.2 key,foldl_map]
  congr 1
  induction entries generalizing state with
  | nil => rfl
  | cons item _ ih => exact ih _

theorem declareAll_get (model : Model) (key : EdgeKey) :
    (declareAll model).2.get key = (model.channels.get key).map fun _ => starvedName key := by
  unfold declareAll
  rw [declareStarved_get]
  split
  · rename_i mem
    obtain ⟨⟨found,channel⟩,held,same⟩ := mem_map.mp mem
    cases same
    rw [get_eq_some_iff.mpr held,Option.map_some]
  · rename_i absent
    cases found : model.channels.get key with
    | none => rfl
    | some channel =>
      have held := get_eq_some_iff.mp found
      exact absurd (mem_map_of_mem held) absent

/-- The rules that keep the marked channels closed. -/
structure Model.Closed (model : Model) (assignment : VarId → Int) : Prop where
  spontaneous : ∀ key channel, model.channels.get key = some channel →
    channel.producer.isSpontaneous = true → ¬ model.Marked assignment key
  produced : ∀ id node, model.nodes.get id = some node → ∀ key ∈ node.produces,
    model.Marked assignment key → node.inputs ≠ [] ∧ model.AllMarked assignment node

/-- What the system says about a pair: its wiring, and the depths of an action. -/
structure Model.PairFixed (model : Model) (assignment : VarId → Int) (pair : PatternPair) :
    Prop where
  wired : assignment (wiredName pair) ≠ 0 ↔ pair.isFullyWired = true
  depth : pair.kind = .action → ∀ key ∈ pair.serverToClient, ∀ channel,
    model.channels.get key = some channel → assignment (capacityName key) = channel.declaredCapacity

/-- The modes that a pair contributes. -/
def Model.PairFires (model : Model) (assignment : VarId → Int) (pair : PatternPair) : Prop :=
  assignment (wiredName pair) = 0 ∨
    (∃ key ∈ pair.clientToServer ++ pair.serverToClient, model.Marked assignment key) ∨
    (pair.kind = .action ∧ ∃ key ∈ pair.serverToClient, ∃ channel,
      model.channels.get key = some channel ∧ assignment (capacityName key) < actionStatusDepth)

def Model.NodeFires (model : Model) (assignment : VarId → Int) : Prop :=
  ∃ id node, model.nodes.get id = some node ∧ node.inputs ≠ [] ∧ model.AllMarked assignment node

def Fires (assignment : VarId → Int) (modes : List (Mode × Formula)) : Prop :=
  ∃ mode ∈ modes, mode.2.Holds assignment

@[simp] theorem fires_append {first second : List (Mode × Formula)} :
    Fires point (first ++ second) ↔ Fires point first ∨ Fires point second := by
  unfold Fires
  simp only [mem_append,or_and_right,exists_or]

@[simp] theorem fires_singleton {mode : Mode} {formula : Formula} :
    Fires point [(mode,formula)] ↔ formula.Holds point := by
  unfold Fires
  simp

variable {starved : StarvedVars} (pair : PatternPair)
  (state : ConstraintSystem × List (Mode × Formula))

theorem encodeStatus_satisfies (key : EdgeKey) :
    (encodeStatus model pair state key).1.Satisfies point ↔
      state.1.Satisfies point ∧ ∀ channel, model.channels.get key = some channel →
        point (capacityName key) = channel.declaredCapacity := by
  unfold encodeStatus
  split
  · rename_i missing
    simp [missing]
  · rename_i channel held
    dsimp only [intVar]
    rw [satisfies_assert,satisfies_declare,holds_eq_var,held]
    simp

theorem encodeStatus_fires (key : EdgeKey) :
    Fires point (encodeStatus model pair state key).2 ↔
      Fires point state.2 ∨ ∃ channel, model.channels.get key = some channel ∧
        point (capacityName key) < actionStatusDepth := by
  unfold encodeStatus
  split
  · rename_i missing
    simp [missing]
  · rename_i channel held
    dsimp only [intVar]
    rw [fires_append,fires_singleton,holds_lt_var,held]
    simp

theorem encodePair_satisfies : (encodePair model starved state pair).1.Satisfies point ↔
    state.1.Satisfies point ∧ model.PairFixed point pair := by
  have wiring : (if pair.isFullyWired then boolVar (wiredName pair)
      else (boolVar (wiredName pair)).not).Holds point ↔
        (point (wiredName pair) ≠ 0 ↔ pair.isFullyWired = true) := by
    cases pair.isFullyWired <;> simp
  unfold encodePair
  dsimp only [ConstraintSystem.boolVar]
  split
  · rename_i action
    have loop := @foldl_and_iff _ _ (encodeStatus model pair)
      (fun state => state.1.Satisfies point) _ (encodeStatus_satisfies pair)
    rw [loop,satisfies_assert,satisfies_declare,wiring,and_assoc]
    apply and_congr_right'
    exact ⟨fun both => ⟨both.1,fun _ => both.2⟩,fun fixed => ⟨fixed.wired,fixed.depth action⟩⟩
  · rename_i service
    rw [satisfies_assert,satisfies_declare,wiring]
    apply and_congr_right'
    exact ⟨fun wired => ⟨wired,fun action => absurd action service⟩,fun fixed => fixed.wired⟩

variable (vars : ∀ key, starved.get key = (model.channels.get key).map fun _ => starvedName key)
include vars

theorem holds_allStarved (node : Node) :
    (allStarved starved node).Holds point ↔ model.AllMarked point node := by
  unfold allStarved
  rw [holds_all,forall_mem_map]
  simp only [holds_boolVar]
  constructor
  · rintro all key mem ⟨channel,held⟩
    apply all
    rw [mem_filterMap]
    exact ⟨key,mem,by rw [vars,held,Option.map_some]⟩
  · intro all _ listed
    obtain ⟨key,mem,found⟩ := mem_filterMap.mp listed
    rw [vars] at found
    obtain ⟨channel,held,same⟩ := Option.map_eq_some_iff.mp found
    rw [← same]
    exact all key mem ⟨channel,held⟩

theorem starved_get_some {id : VarId} (found : starved.get key = some id) :
    id = starvedName key ∧ ∃ channel, model.channels.get key = some channel := by
  rw [vars] at found
  obtain ⟨channel,held,same⟩ := Option.map_eq_some_iff.mp found
  exact ⟨same.symm,channel,held⟩

theorem starved_get_none (missing : starved.get key = none) : ¬ model.Marked point key := by
  rintro ⟨⟨_,held⟩,-⟩
  rw [vars,held] at missing
  cases missing

theorem assertSpontaneous_satisfies (system : ConstraintSystem) (item : EdgeKey × Channel) :
    (assertSpontaneous starved system item).Satisfies point ↔ system.Satisfies point ∧
        (item.2.producer.isSpontaneous = true → ¬ model.Marked point item.1) := by
  unfold assertSpontaneous
  split
  · rename_i spontaneous
    split
    · rename_i place found
      obtain ⟨same,held⟩ := starved_get_some vars found
      have marked : model.Marked point item.1 ↔ point (starvedName item.1) ≠ 0 :=
        and_iff_right held
      simp [spontaneous,same,marked]
    · rename_i missing
      have unmarked : ¬ model.Marked point item.1 := starved_get_none vars missing
      simp [unmarked]
  · rename_i driven
    simp [driven]

theorem assertPlace_satisfies (node : Node) (system : ConstraintSystem) (produced : EdgeKey) :
    (assertPlace starved node system produced).Satisfies point ↔ system.Satisfies point ∧
        (model.Marked point produced →
          node.inputs ≠ [] ∧ model.AllMarked point node) := by
  unfold assertPlace
  split
  · rename_i missing
    have unmarked : ¬ model.Marked point produced := starved_get_none vars missing
    simp [unmarked]
  · rename_i place found
    obtain ⟨same,held⟩ := starved_get_some vars found
    subst same
    have marked : model.Marked point produced ↔ point (starvedName produced) ≠ 0 :=
      and_iff_right held
    rw [marked]
    split
    · rename_i idle
      rw [List.isEmpty_iff] at idle
      simp [idle]
    · rename_i driven
      rw [List.isEmpty_iff] at driven
      rw [satisfies_assert,holds_implies,holds_boolVar,holds_allStarved vars]
      simp [driven]

theorem assertNode_satisfies (system : ConstraintSystem) (item : NodeId × Node) :
    (assertNode starved system item).Satisfies point ↔
      system.Satisfies point ∧ ∀ key ∈ item.2.produces, model.Marked point key →
        item.2.inputs ≠ [] ∧ model.AllMarked point item.2 :=
  foldl_and_iff (assertPlace_satisfies vars item.2) item.2.produces system

theorem fires_legModes (requestLeg : Bool) (keys : List EdgeKey) :
    Fires point (legModes starved pair requestLeg keys) ↔
      ∃ key ∈ keys, model.Marked point key := by
  constructor
  · rintro ⟨_,listed,holds⟩
    obtain ⟨key,mem,found⟩ := mem_filterMap.mp listed
    obtain ⟨_,placed,same⟩ := Option.map_eq_some_iff.mp found
    obtain ⟨named,held⟩ := starved_get_some vars placed
    rw [← same,holds_boolVar,named] at holds
    exact ⟨key,mem,held,holds⟩
  · rintro ⟨key,mem,⟨_,held⟩,marked⟩
    refine ⟨(.correlationStarved pair.client pair.server key requestLeg,
      boolVar (starvedName key)),?_,holds_boolVar.mpr marked⟩
    exact mem_filterMap.mpr ⟨key,mem,by rw [vars,held,Option.map_some,Option.map_some]⟩

theorem encodePair_fires : Fires point (encodePair model starved state pair).2 ↔
    Fires point state.2 ∨ model.PairFires point pair := by
  have legs : Fires point (state.2 ++ [(.correlationUnwired pair.client pair.server pair.kind,
        (boolVar (wiredName pair)).not)] ++
      legModes starved pair true pair.clientToServer ++
      legModes starved pair false pair.serverToClient) ↔
        Fires point state.2 ∨ point (wiredName pair) = 0 ∨
          ∃ key ∈ pair.clientToServer ++ pair.serverToClient, model.Marked point key := by
    rw [fires_append,fires_append,fires_append,fires_singleton,fires_legModes pair vars,
      fires_legModes pair vars,holds_not,holds_boolVar,not_not]
    simp only [mem_append,or_and_right,exists_or,or_assoc]
  unfold encodePair
  dsimp only [ConstraintSystem.boolVar]
  unfold Model.PairFires
  split
  · rename_i action
    have loop := @foldl_or_iff _ _ (encodeStatus model pair)
      (fun state => Fires point state.2) _ (encodeStatus_fires pair)
    rw [loop,legs,and_iff_right action,or_assoc,or_assoc]
  · rename_i service
    rw [legs]
    simp [service]

theorem fires_nodeModes (entries : List (NodeId × Node)) :
    Fires point (entries.filterMap (nodeMode starved)) ↔
      ∃ item ∈ entries, item.2.inputs ≠ [] ∧ model.AllMarked point item.2 := by
  unfold Fires nodeMode
  constructor
  · rintro ⟨_,listed,holds⟩
    obtain ⟨item,mem,found⟩ := mem_filterMap.mp listed
    split at found
    · cases found
    · rename_i driven
      cases found
      rw [List.isEmpty_iff] at driven
      exact ⟨item,mem,driven,(holds_allStarved vars item.2).mp holds⟩
  · rintro ⟨item,mem,_,marked⟩
    refine ⟨(.nodeStarved item.1,allStarved starved item.2),?_,
      (holds_allStarved vars item.2).mpr marked⟩
    exact mem_filterMap.mpr ⟨item,mem,if_neg (by rwa [List.isEmpty_iff])⟩

end Meaning

theorem encodeSiphon_satisfies (model : Model) (point : VarId → Int) :
    (encodeSiphon model).Satisfies point ↔ model.Closed point := by
  have vars := declareAll_get model
  have spontaneous := @foldl_and_iff _ _ (assertSpontaneous (declareAll model).2)
    (fun system => system.Satisfies point) _ (assertSpontaneous_satisfies vars)
  have nodes := @foldl_and_iff _ _ (assertNode (declareAll model).2)
    (fun system => system.Satisfies point) _ (assertNode_satisfies vars)
  have declared : (declareAll model).1.Satisfies point :=
    (declareStarved_satisfies _ _).mpr satisfies_new
  unfold encodeSiphon
  rw [nodes,spontaneous]
  constructor
  · rintro ⟨⟨-,ruled⟩,closed⟩
    constructor
    · intro key channel held
      exact ruled (key,channel) (get_eq_some_iff.mp held)
    · intro id node found
      exact closed (id,node) (get_eq_some_iff.mp found)
  · intro closed
    refine ⟨⟨declared,?_⟩,?_⟩
    · rintro ⟨key,channel⟩ mem
      exact closed.spontaneous key channel (get_eq_some_iff.mpr mem)
    · rintro ⟨id,node⟩ mem
      exact closed.produced id node (get_eq_some_iff.mpr mem)

theorem satisfies_encode_iff (model : Model) (point : VarId → Int) :
    (encode model).system.Satisfies point ↔ model.Closed point ∧
        (∀ pair ∈ model.patternPairs, model.PairFixed point pair) ∧
        (model.NodeFires point ∨
          ∃ pair ∈ model.patternPairs, model.PairFires point pair) := by
  have vars := declareAll_get model
  have pairs := @foldl_and_iff _ _ (encodePair model (declareAll model).2)
    (fun state => state.1.Satisfies point) _ fun state pair => encodePair_satisfies pair state
  have fires := @foldl_or_iff _ _ (encodePair model (declareAll model).2)
    (fun state => Fires point state.2) _ fun state pair => encodePair_fires pair state vars
  have modes : (Formula.any ((encodeModes model).2.map Prod.snd)).Holds point ↔
      Fires point (encodeModes model).2 := by
    rw [holds_any]
    unfold Fires
    simp only [mem_map,exists_exists_and_eq_and]
  have nodes : (∃ item ∈ model.nodes.entries, item.2.inputs ≠ [] ∧
      model.AllMarked point item.2) ↔ model.NodeFires point := by
    unfold Model.NodeFires
    simp only [Prod.exists,get_eq_some_iff]
  unfold encode
  rw [satisfies_assert,modes]
  unfold encodeModes
  dsimp only
  rw [pairs,fires,fires_nodeModes vars,nodes,encodeSiphon_satisfies,and_assoc]

/-- The tables of a model fit together. -/
structure Model.Coherent (model : Model) : Prop where
  inputs : ∀ id node, model.nodes.get id = some node → ∀ key ∈ node.inputs,
    ∃ channel, model.channels.get key = some channel
  produces : ∀ id node, model.nodes.get id = some node → ∀ key, key ∈ node.produces ↔
    ∃ channel output, model.channels.get key = some channel ∧ channel.producer = .node id output
  legs : ∀ pair ∈ model.patternPairs, ∀ key ∈ pair.clientToServer ++ pair.serverToClient,
    ∃ channel, model.channels.get key = some channel

namespace DataflowGraph

variable {graph : DataflowGraph}

theorem mem_patternPairs {pair : PatternPair} (mem : pair ∈ graph.patternPairs) :
    (pair.client ∈ graph.playing pair.kind .client ∧ pair.server ∈ graph.playing pair.kind .server) ∧
      pair.clientToServer = graph.edgesBetween pair.client pair.server ∧
      pair.serverToClient = graph.edgesBetween pair.server pair.client := by
  have listed : ∃ kind, pair ∈ graph.pairsOfKind kind := by
    rcases mem_append.mp ((mem_insertionSort _).mp mem) with service | action
    · exact ⟨_,service⟩
    · exact ⟨_,action⟩
  obtain ⟨_,listed⟩ := listed
  obtain ⟨_,plays,others⟩ := mem_flatMap.mp listed
  obtain ⟨_,answers,made⟩ := mem_filterMap.mp others
  unfold pairOf at made
  dsimp only at made
  split at made
  · cases made
  · cases made
    exact ⟨⟨plays,answers⟩,rfl,rfl⟩

end DataflowGraph

theorem fromGraph_coherent (graph : DataflowGraph) : (Model.fromGraph graph).Coherent := by
  have nodes : ∀ id node, (Model.fromGraph graph).nodes.get id = some node →
      node = { inputs := graph.edgesInto id, produces := graph.edgesFrom id } := by
    intro _ _ found
    unfold Model.fromGraph at found
    rw [get_mapWithKey,Option.map_eq_some_iff] at found
    obtain ⟨-,-,same⟩ := found
    exact same.symm
  constructor
  · intro id node found _ mem
    rw [nodes id node found] at mem
    obtain ⟨⟨edge,held⟩,-⟩ := mem_edgesInto.mp mem
    exact ⟨_,fromGraph_channel.mpr ⟨edge,held,rfl⟩⟩
  · intro id node found _
    rw [nodes id node found,mem_edgesFrom]
    constructor
    · rintro ⟨edge,held,produced⟩
      obtain ⟨output,producer⟩ := producerOf_eq_node.mp produced
      exact ⟨_,output,fromGraph_channel.mpr ⟨edge,held,rfl⟩,producer⟩
    · rintro ⟨_,output,held,producer⟩
      obtain ⟨edge,stored,same⟩ := fromGraph_channel.mp held
      subst same
      exact ⟨edge,stored,producerOf_eq_node.mpr ⟨output,producer⟩⟩
  · intro _ mem key leg
    obtain ⟨-,requests,responses⟩ := mem_patternPairs mem
    rw [requests,responses] at leg
    have listed : ∃ node, key ∈ graph.edgesFrom node := by
      rcases mem_append.mp leg with request | response
      · exact ⟨_,(mem_filter.mp request).1⟩
      · exact ⟨_,(mem_filter.mp response).1⟩
    obtain ⟨_,listed⟩ := listed
    obtain ⟨edge,held,-⟩ := mem_edgesFrom.mp listed
    exact ⟨_,fromGraph_channel.mpr ⟨edge,held,rfl⟩⟩

section Sound

theorem Model.Closed.marked_dead (closed : model.Closed point) (coherent : model.Coherent)
    (live : model.Live key) : ¬ model.Marked point key := by
  induction live with
  | spontaneous held spontaneous => exact closed.spontaneous _ _ held spontaneous
  | source held producer found idle =>
    intro marked
    have produced := (coherent.produces _ _ found _).mpr ⟨_,_,held,producer⟩
    exact (closed.produced _ _ found _ produced marked).1 idle
  | fed held producer found mem _ ih =>
    intro marked
    have produced := (coherent.produces _ _ found _).mpr ⟨_,_,held,producer⟩
    have inputs := (closed.produced _ _ found _ produced marked).2
    have fed := coherent.inputs _ _ found _ mem
    exact ih ⟨fed,inputs _ mem fed⟩

theorem Model.Closed.siphon (closed : model.Closed point) (coherent : model.Coherent) :
    model.net.IsSiphon (model.Marked point) := by
  intro firing place marked produces
  cases firing with
  | spontaneous key channel held spontaneous =>
    change 0 < (if place = key then 1 else 0) at produces
    split at produces
    · rename_i same
      rw [same] at marked
      exact absurd marked (closed.spontaneous key channel held spontaneous)
    · omega
  | source id node found idle emits within =>
    change 0 < (if emits place then 1 else 0) at produces
    split at produces
    · rename_i emitted
      have ruled := closed.produced id node found place (within place emitted) marked
      exact absurd idle ruled.1
    · omega
  | event id node found input mem emits within =>
    change 0 < (if emits place then 1 else 0) at produces
    split at produces
    · rename_i emitted
      have ruled := closed.produced id node found place (within place emitted) marked
      have fed := coherent.inputs id node found input mem
      refine ⟨input,⟨fed,ruled.2 input mem fed⟩,?_⟩
      change 0 < (if input = input then 1 else 0)
      rw [if_pos rfl]
      exact Nat.one_pos
    · omega

theorem deadlocks_of_satisfies (coherent : model.Coherent)
    (satisfies : (encode model).system.Satisfies point) : model.Deadlocks := by
  obtain ⟨closed,fixed,fires⟩ := (satisfies_encode_iff model point).mp satisfies
  have dead : ∀ key, model.Marked point key → ¬ model.Live key :=
    fun key marked live => closed.marked_dead coherent live marked
  rcases fires with ⟨id,node,found,driven,marked⟩ | ⟨pair,mem,fires⟩
  · refine .inl ⟨id,node,found,driven,?_⟩
    intro key input
    have held := coherent.inputs id node found key input
    exact dead key ⟨held,marked key input held⟩
  · rcases fires with unwired | ⟨key,leg,marked⟩ | ⟨action,key,status,channel,held,shallow⟩
    · refine .inr (.inl ⟨pair,mem,.inl ?_⟩)
      rw [← Bool.not_eq_true,← (fixed pair mem).wired,not_not]
      exact unwired
    · exact .inr (.inl ⟨pair,mem,.inr ⟨key,leg,dead key marked⟩⟩)
    · rw [(fixed pair mem).depth action key status channel held] at shallow
      exact .inr (.inr ⟨pair,mem,action,key,status,channel,held,by exact_mod_cast shallow⟩)

end Sound

/-! ### From a deadlock to an assignment -/

/-- No two channels are printed alike. -/
def Model.KeysDistinct (model : Model) : Prop :=
  ∀ left right, (∃ channel, model.channels.get left = some channel) →
    (∃ channel, model.channels.get right = some channel) → left.display = right.display →
      left = right

/-- Pairs that share their variable are wired alike. -/
def Model.PairsAgree (model : Model) : Prop :=
  ∀ left ∈ model.patternPairs, ∀ right ∈ model.patternPairs, wiredName left = wiredName right →
    left.isFullyWired = right.isFullyWired

/-- The depth that a variable stands for. -/
def Model.depthOf (model : Model) (name : VarId) : Nat :=
  ((model.channels.entries.find? fun binding => decide (capacityName binding.1 = name)).map
    fun binding => binding.2.declaredCapacity).getD 0

open Classical in
/-- Marks the dead channels and the wired pairs; the first letter tells the variables apart. -/
noncomputable def Model.starving (model : Model) (name : VarId) : Int :=
  match name.head? with
  | some 's' =>
    if ∃ key, (∃ channel, model.channels.get key = some channel) ∧ ¬ model.Live key ∧
      name = starvedName key then 1 else 0
  | some 'w' =>
    if ∃ pair ∈ model.patternPairs, pair.isFullyWired = true ∧ name = wiredName pair then 1 else 0
  | _ => model.depthOf name

section Complete

theorem starving_starved (distinct : model.KeysDistinct)
    (held : ∃ channel, model.channels.get key = some channel) :
    model.starving (starvedName key) ≠ 0 ↔ ¬ model.Live key := by
  classical
  refine ite_ne_right_iff.trans ⟨?_,fun dead => ⟨⟨key,held,dead,rfl⟩,one_ne_zero⟩⟩
  rintro ⟨⟨other,present,dead,same⟩,-⟩
  have shown : key.display = other.display := append_cancel_left same
  rw [distinct key other held present shown]
  exact dead

theorem starving_wired (agree : model.PairsAgree) {pair : PatternPair}
    (mem : pair ∈ model.patternPairs) :
    model.starving (wiredName pair) ≠ 0 ↔ pair.isFullyWired = true := by
  classical
  refine ite_ne_right_iff.trans ⟨?_,fun wired => ⟨⟨pair,mem,wired,rfl⟩,one_ne_zero⟩⟩
  rintro ⟨⟨other,present,wired,same⟩,-⟩
  rw [agree pair mem other present same]
  exact wired

theorem starving_capacity (distinct : model.KeysDistinct) {channel : Channel}
    (held : model.channels.get key = some channel) :
    model.starving (capacityName key) = channel.declaredCapacity := by
  change ((model.depthOf (capacityName key) : Nat) : Int) = _
  unfold Model.depthOf
  have listed := get_eq_some_iff.mp held
  cases found : model.channels.entries.find? fun item =>
      decide (capacityName item.1 = capacityName key) with
  | none =>
    exact absurd (decide_eq_true rfl) (List.find?_eq_none.mp found (key,channel) listed)
  | some item =>
    have named := List.find?_some found
    rw [decide_eq_true_eq] at named
    have stored := get_eq_some_iff.mpr (mem_of_find?_eq_some found)
    have same := distinct item.1 key ⟨_,stored⟩ ⟨_,held⟩ (append_cancel_left named)
    rw [same,held] at stored
    cases stored
    rfl

/-- Marking what is not live is closed. -/
theorem starving_closed (coherent : model.Coherent) (distinct : model.KeysDistinct) :
    model.Closed model.starving := by
  have dead : ∀ key, model.Marked model.starving key → ¬ model.Live key :=
    fun key marked => (starving_starved distinct marked.1).mp marked.2
  constructor
  · intro key _ held spontaneous marked
    exact dead key marked (.spontaneous held spontaneous)
  · intro id node found key produced marked
    obtain ⟨_,_,held,producer⟩ := (coherent.produces id node found key).mp produced
    constructor
    · intro idle
      exact dead key marked (.source held producer found idle)
    · intro _ mem fed
      rw [starving_starved distinct fed]
      intro live
      exact dead key marked (.fed held producer found mem live)

theorem satisfies_of_deadlocks (coherent : model.Coherent) (distinct : model.KeysDistinct)
    (agree : model.PairsAgree) (deadlocks : model.Deadlocks) :
    (encode model).system.Satisfies model.starving := by
  rw [satisfies_encode_iff]
  refine ⟨starving_closed coherent distinct,?_,?_⟩
  · intro _ mem
    exact ⟨starving_wired agree mem,fun _ key _ channel held => starving_capacity distinct held⟩
  · rcases deadlocks with ⟨id,node,found,driven,dead⟩ | ⟨pair,mem,blocked⟩ |
      ⟨pair,mem,action,key,status,channel,held,shallow⟩
    · refine .inl ⟨id,node,found,driven,?_⟩
      intro key input held
      exact (starving_starved distinct held).mpr (dead key input)
    · refine .inr ⟨pair,mem,?_⟩
      rcases blocked with partly | ⟨key,leg,dead⟩
      · left
        by_contra marked
        rw [(starving_wired agree mem).mp marked] at partly
        cases partly
      · have held := coherent.legs pair mem key leg
        exact .inr (.inl ⟨key,leg,held,(starving_starved distinct held).mpr dead⟩)
    · refine .inr ⟨pair,mem,.inr (.inr ⟨action,key,status,channel,held,?_⟩)⟩
      rw [starving_capacity distinct held]
      exact_mod_cast shallow

end Complete

/-- Ids without a tilde, as every valid manifest has them, tell the pairs apart. -/
theorem pairsAgree_of_plain (graph : DataflowGraph)
    (plain : ∀ id node, graph.nodes.get id = some node → '~' ∉ id) :
    (Model.fromGraph graph).PairsAgree := by
  intro left leftMember right rightMember same
  obtain ⟨⟨client,server⟩,leftRequests,leftResponses⟩ := mem_patternPairs leftMember
  obtain ⟨-,rightRequests,rightResponses⟩ := mem_patternPairs rightMember
  have bare : ∀ kind role, ∀ id ∈ graph.playing kind role, '~' ∉ id := by
    intro _ _ _ plays
    obtain ⟨⟨found,node⟩,listed,same⟩ := mem_map.mp plays
    rw [← same]
    exact plain found node (get_eq_some_iff.mpr (mem_filter.mp listed).1)
  have names : left.client ++ '~' :: left.server = right.client ++ '~' :: right.server :=
    append_cancel_left same
  obtain ⟨clients,-,servers⟩ :=
    (append_cons_inj_of_notMem (bare _ _ _ client) (bare _ _ _ server)).mp names
  unfold PatternPair.isFullyWired PatternPair.hasRequestEdge PatternPair.hasResponseEdge
  rw [leftRequests,leftResponses,rightRequests,rightResponses,clients,servers]

theorem keysDistinct_of_nodup
    (nodup : (model.channels.entries.map fun item => item.1.display).Nodup) :
    model.KeysDistinct := by
  rintro left right ⟨_,leftHeld⟩ ⟨_,rightHeld⟩ same
  have leftMember := get_eq_some_iff.mp leftHeld
  have rightMember := get_eq_some_iff.mp rightHeld
  exact congrArg Prod.fst (inj_on_of_nodup_map nodup leftMember rightMember same)

/-- The system is satisfiable exactly when the graph deadlocks, and the channels that a
satisfying assignment marks stay empty in every run. -/
theorem deadlock_encoding_exact (graph : DataflowGraph)
    (distinct : (Model.fromGraph graph).KeysDistinct) (agree : (Model.fromGraph graph).PairsAgree) :
    ((encode (Model.fromGraph graph)).system.IsSatisfiable ↔ (Model.fromGraph graph).Deadlocks) ∧
      ∀ assignment, (encode (Model.fromGraph graph)).system.Satisfies assignment →
        ∀ key id, (encode (Model.fromGraph graph)).starved.get key = some id → assignment id ≠ 0 →
          ∀ marking, (Model.fromGraph graph).net.Reachable (fun _ => 0) marking →
            marking key = 0 := by
  have coherent := fromGraph_coherent graph
  constructor
  · constructor
    · rintro ⟨assignment,satisfies⟩
      exact deadlocks_of_satisfies coherent satisfies
    · intro deadlocks
      exact ⟨_,satisfies_of_deadlocks coherent distinct agree deadlocks⟩
  · intro assignment satisfies key _ found marked _ reached
    obtain ⟨closed,-,-⟩ := (satisfies_encode_iff _ assignment).mp satisfies
    obtain ⟨named,held⟩ := starved_get_some (declareAll_get _) found
    rw [named] at marked
    exact (closed.siphon coherent).empty_run (fun _ _ => rfl) reached key ⟨held,marked⟩

def selfFed : DataflowGraph :=
  { nodes := empty.insert ['n'] (.plain [['o']] [['i']] none)
    edges := empty.insert { consumer := ['n'], input := ['i'] }
      { source := .nodeOutput ['n'] ['o'], queue := { size := 1, policy := .dropOldest } }
    strictTypes := false
    typeRules := [] }

theorem selfFed_dead (key : EdgeKey) : ¬ (Model.fromGraph selfFed).Live key := by
  have only : ∀ key channel, (Model.fromGraph selfFed).channels.get key = some channel → channel =
        { producer := .node ['n'] ['o']
          declaredCapacity := 1
          policy := .dropOldest
          effectiveCapacity := 1 } := by
    intro _ _ held
    have listed := get_eq_some_iff.mp held
    exact congrArg Prod.snd (mem_singleton.mp listed)
  intro live
  induction live with
  | spontaneous held spontaneous =>
    rw [only _ _ held] at spontaneous
    cases spontaneous
  | source held producer found idle =>
    rw [only _ _ held] at producer
    cases producer
    cases found
    cases idle
  | fed _ _ _ _ _ ih => exact ih

/-- The system of a node that waits for itself is satisfiable. -/
theorem selfFed_satisfiable : (encode (Model.fromGraph selfFed)).system.IsSatisfiable := by
  refine (deadlock_encoding_exact selfFed (keysDistinct_of_nodup (by decide))
    (pairsAgree_of_plain selfFed ?_)).1.mpr (.inl ⟨['n'],_,rfl,by decide,?_⟩)
  · intro id _ found
    have listed := get_eq_some_iff.mp found
    have same : id = ['n'] := congrArg Prod.fst (mem_singleton.mp listed)
    rw [same]
    decide
  · intro key _
    exact selfFed_dead key

/-- Two pairs whose variables have one name: `a~b` with `c` is wired both ways, `a` with
`b~c` one way only. -/
def tildeNamed : DataflowGraph :=
  let queue : QueueConfig := { size := 1, policy := .dropOldest }
  { nodes := (((empty.insert ['a'] (.plain [['o']] [] (some .serviceClient))).insert
      ['b','~','c'] (.plain [] [['q']] (some .serviceServer))).insert
      ['a','~','b'] (.plain [['o']] [['r']] (some .serviceClient))).insert
      ['c'] (.plain [['o']] [['q']] (some .serviceServer))
    edges := ((empty.insert { consumer := ['b','~','c'], input := ['q'] }
      { source := .nodeOutput ['a'] ['o'], queue := queue }).insert
      { consumer := ['c'], input := ['q'] }
      { source := .nodeOutput ['a','~','b'] ['o'], queue := queue }).insert
      { consumer := ['a','~','b'], input := ['r'] }
      { source := .nodeOutput ['c'] ['o'], queue := queue }
    strictTypes := false
    typeRules := [] }

/-- A pair is not wired, and yet the system has no solution: its variable is that of the
wired pair. -/
theorem tilde_hides_unwired_pair : (Model.fromGraph tildeNamed).KeysDistinct ∧
      (∀ binding ∈ (Model.fromGraph tildeNamed).channels.entries, ∀ id ∈ binding.2.producer.nodeId,
          ((Model.fromGraph tildeNamed).nodes.get id).isSome = true) ∧
      (Model.fromGraph tildeNamed).Deadlocks ∧
      ¬ (encode (Model.fromGraph tildeNamed)).system.IsSatisfiable := by
  refine ⟨keysDistinct_of_nodup (by decide),by decide,?_,?_⟩
  · exact .inr (.inl ⟨_,mem_of_getElem? (i := 0) rfl,.inl rfl⟩)
  · rintro ⟨assignment,satisfies⟩
    obtain ⟨-,fixed,-⟩ := (satisfies_encode_iff _ assignment).mp satisfies
    have partly := (fixed _ (mem_of_getElem? (i := 0) rfl)).wired
    have fully := (fixed _ (mem_of_getElem? (i := 1) rfl)).wired
    exact absurd (partly.mp (fully.mpr rfl)) (by decide)

end Astrs.Verify
