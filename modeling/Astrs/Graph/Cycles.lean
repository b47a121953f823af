/-
The cycle analysis is exact.

Components are the classes of mutual reachability, and an edge lies on a directed cycle
exactly when both its ends are in one component.
-/

import Astrs.Graph.Scc

namespace Astrs.Graph

open Astrs.Base Astrs.Verify List OrderedSet
open OrderedMap (get_eq_some_iff)

/-! ### Successors -/

theorem get_connect_isSome (adjacency : Adjacency) (pair : EdgeKey × Edge) (source : NodeId) :
    ((connect adjacency pair).get source).isSome = (adjacency.get source).isSome := by
  unfold connect
  cases pair.2.source.producerNode with
  | none => rfl
  | some producer =>
    rw [OrderedMap.get_adjust]
    by_cases same : producer = source
    · rw [if_pos same,same]
      cases adjacency.get source <;> rfl
    · rw [if_neg same]

/-- The successors a node has so far. -/
def listed (adjacency : Adjacency) (source : NodeId) : List NodeId :=
  ((adjacency.get source).map OrderedSet.elems).getD []

theorem mem_listed_connect (adjacency : Adjacency) (pair : EdgeKey × Edge)
    (source goal : NodeId) :
    goal ∈ listed (connect adjacency pair) source ↔
      goal ∈ listed adjacency source ∨ ((adjacency.get source).isSome = true ∧
        pair.2.source.producerNode = some source ∧ pair.1.consumer = goal) := by
  unfold listed connect
  cases made : pair.2.source.producerNode with
  | none => simp
  | some producer =>
    rw [OrderedMap.get_adjust]
    by_cases same : producer = source
    · rw [if_pos same,same]
      cases adjacency.get source with
      | none => simp
      | some =>
        simp only [Option.map_some,Option.getD_some,mem_insert,Option.isSome_some]
        constructor
        · rintro (fresh | old)
          · exact .inr ⟨trivial,trivial,fresh.symm⟩
          · exact .inl old
        · rintro (old | ⟨_,_,fresh⟩)
          · exact .inr old
          · exact .inl fresh.symm
    · rw [if_neg same]
      have other : ¬ (some producer = some source) := fun equal => same (Option.some.inj equal)
      simp [other]

theorem mem_listed_foldl (bindings : List (EdgeKey × Edge)) (adjacency : Adjacency)
    (source goal : NodeId) :
    goal ∈ listed (bindings.foldl connect adjacency) source ↔
      goal ∈ listed adjacency source ∨ ((adjacency.get source).isSome = true ∧
        ∃ pair ∈ bindings, pair.2.source.producerNode = some source ∧
          pair.1.consumer = goal) := by
  induction bindings generalizing adjacency with
  | nil => simp
  | cons pair bindings ih =>
    rw [foldl_cons,ih,mem_listed_connect,get_connect_isSome]
    simp only [mem_cons,exists_eq_or_imp]
    tauto

def Leads (graph : DataflowGraph) (source target : NodeId) : Prop :=
  ∃ key edge, graph.edges.get key = some edge ∧ edge.source.producerNode = some source ∧
    key.consumer = target

variable {graph : DataflowGraph}

theorem mem_nodeIds {node : NodeId} :
    node ∈ nodeIds graph ↔ (graph.nodes.get node).isSome = true := by
  unfold nodeIds
  rw [mem_map,Option.isSome_iff_exists]
  constructor
  · rintro ⟨⟨_,value⟩,mem,rfl⟩
    exact ⟨value,get_eq_some_iff.mpr mem⟩
  · rintro ⟨value,found⟩
    exact ⟨(node,value),get_eq_some_iff.mp found,rfl⟩

variable {source goal : NodeId} {keys : List EdgeKey} {key : EdgeKey}

theorem mem_successors :
    goal ∈ successors graph source ↔ source ∈ nodeIds graph ∧ Leads graph source goal := by
  change goal ∈ listed (nodeAdjacency graph) source ↔ _
  unfold nodeAdjacency
  rw [mem_listed_foldl,OrderedMap.get_mapWithKey,Option.isSome_map,mem_nodeIds]
  have blank : goal ∉ listed (graph.nodes.mapWithKey fun _ _ => empty) source := by
    unfold listed
    rw [OrderedMap.get_mapWithKey]
    cases graph.nodes.get source <;> simp
  constructor
  · rintro (old | ⟨known,⟨key,edge⟩,mem,made,used⟩)
    · exact absurd old blank
    · exact ⟨known,key,edge,get_eq_some_iff.mpr mem,made,used⟩
  · rintro ⟨known,key,edge,found,made,used⟩
    exact .inr ⟨known,(key,edge),get_eq_some_iff.mp found,made,used⟩

def Wired (graph : DataflowGraph) : Prop :=
  ∀ key edge, graph.edges.get key = some edge → key.consumer ∈ nodeIds graph

abbrev Path (graph : DataflowGraph) : NodeId → NodeId → Prop := Relation.ReflTransGen (Leads graph)

theorem successors_known (wired : Wired graph) (source : NodeId) :
    ∀ goal ∈ successors graph source, goal ∈ nodeIds graph := by
  intro _ mem
  obtain ⟨_,key,edge,found,_,rfl⟩ := mem_successors.mp mem
  exact wired key edge found

theorem path_iff (wired : Wired graph) (known : source ∈ nodeIds graph) :
    Tarjan.Reaches (successors graph) source goal ↔ Path graph source goal := by
  constructor
  · intro path
    exact Relation.ReflTransGen.mono (fun _ _ edge => (mem_successors.mp edge).2) _ _ path
  · intro path
    induction path using Relation.ReflTransGen.head_induction_on with
    | refl => exact .refl
    | @head source middle leads _ ih =>
      have edge : middle ∈ successors graph source := mem_successors.mpr ⟨known,leads⟩
      exact .head edge (ih (successors_known wired source middle edge))

/-- A walk along edges, each from the node the one before it feeds. -/
inductive Walk (graph : DataflowGraph) : NodeId → List EdgeKey → NodeId → Prop where
  | stay (node : NodeId) : Walk graph node [] node
  | step {source target : NodeId} {key : EdgeKey} {edge : Edge} {keys : List EdgeKey}
      (found : graph.edges.get key = some edge)
      (produced : edge.source.producerNode = some source)
      (onward : Walk graph key.consumer keys target) : Walk graph source (key :: keys) target

/-- A directed cycle: a walk back to its start that meets every node on it once. -/
structure DirectedCycle (graph : DataflowGraph) (keys : List EdgeKey) : Prop where
  nonempty : keys ≠ []
  closed : ∃ node, Walk graph node keys node
  simple : (keys.map EdgeKey.consumer).Nodup

variable {graph : DataflowGraph}

theorem Walk.path (walk : Walk graph source keys goal) : Path graph source goal := by
  induction walk with
  | stay => exact .refl
  | step found made _ ih => exact .head ⟨_,_,found,made,rfl⟩ ih

theorem Walk.from_met {met : NodeId}
    (walk : Walk graph source keys goal) (meets : met ∈ source :: keys.map EdgeKey.consumer) :
    ∃ rest, Walk graph met rest goal ∧
      (met :: rest.map EdgeKey.consumer) <:+ (source :: keys.map EdgeKey.consumer) := by
  induction walk with
  | stay node =>
    rw [map_nil,mem_singleton] at meets
    rw [meets]
    exact ⟨[],.stay node,suffix_refl _⟩
  | @step source goal key edge keys found made onward ih =>
    by_cases same : met = source
    · rw [same]
      exact ⟨key :: keys,.step found made onward,suffix_refl _⟩
    · have later := (mem_cons.mp meets).resolve_left same
      obtain ⟨rest,walk,ends⟩ := ih later
      exact ⟨rest,walk,ends.trans (suffix_cons _ _)⟩

theorem Path.simple (path : Path graph source goal) :
    ∃ keys, Walk graph source keys goal ∧ (source :: keys.map EdgeKey.consumer).Nodup := by
  induction path using Relation.ReflTransGen.head_induction_on with
  | refl => exact ⟨[],.stay goal,nodup_singleton _⟩
  | @head source middle leads path ih =>
    obtain ⟨key,_,found,made,rfl⟩ := leads
    obtain ⟨keys,walk,distinct⟩ := ih
    by_cases meets : source ∈ key.consumer :: keys.map EdgeKey.consumer
    · obtain ⟨rest,short,ends⟩ := walk.from_met meets
      exact ⟨rest,short,distinct.sublist ends.sublist⟩
    · exact ⟨key :: keys,.step found made walk,nodup_cons.mpr ⟨meets,distinct⟩⟩

theorem cycle_through {edge : Edge} {producer : NodeId}
    (found : graph.edges.get key = some edge) (made : edge.source.producerNode = some producer)
    (back : Path graph key.consumer producer) : ∃ keys, DirectedCycle graph keys ∧ key ∈ keys := by
  obtain ⟨keys,walk,distinct⟩ := Path.simple back
  exact ⟨key :: keys,⟨cons_ne_nil _ _,⟨producer,.step found made walk⟩,distinct⟩,mem_cons_self⟩

/-- Both ways between the start of a walk and each edge on it. -/
theorem Walk.around (walk : Walk graph source keys goal) (mem : key ∈ keys) :
    ∃ edge producer, graph.edges.get key = some edge ∧
      edge.source.producerNode = some producer ∧ Path graph source producer ∧
      Path graph key.consumer goal := by
  induction walk with
  | stay => cases mem
  | @step source goal first edge keys found made onward ih =>
    rw [mem_cons] at mem
    cases mem with
    | inl same =>
      rw [same]
      exact ⟨edge,source,found,made,.refl,onward.path⟩
    | inr later =>
      obtain ⟨other,producer,foundOther,producedOther,early,late⟩ := ih later
      exact ⟨other,producer,foundOther,producedOther,.head ⟨_,_,found,made,rfl⟩ early,late⟩

def CycleIn (graph : DataflowGraph) (component : List NodeId) (keys : List EdgeKey) : Prop :=
  DirectedCycle graph keys ∧ ∀ key ∈ keys, key.consumer ∈ component

section Inside

variable {sccs : List (List NodeId)} {scc : List NodeId}

section

variable (wired : Wired graph) (exact : Tarjan.Exact (successors graph) (nodeIds graph) sccs)
  (mem : scc ∈ sccs)
include wired exact mem

theorem mem_component_iff {node : NodeId} (inside : node ∈ scc) (other : NodeId) :
    other ∈ scc ↔ Path graph node other ∧ Path graph other node := by
  have known : node ∈ nodeIds graph := (exact.covers node).mpr ⟨scc,mem,inside⟩
  rw [exact.maximal scc mem node inside other,path_iff wired known]
  apply and_congr_right
  intro forth
  -- The other end is a node of the graph: either the same one or the consumer of an edge.
  have otherKnown : other ∈ nodeIds graph := by
    cases forth.cases_tail with
    | inl same =>
      rw [same]
      exact known
    | inr last =>
      obtain ⟨_,_,key,edge,found,_,rfl⟩ := last
      exact wired key edge found
  exact path_iff wired otherKnown

theorem inside_iff_cycle {edge : Edge} (found : graph.edges.get key = some edge) :
    (key.consumer ∈ scc ∧ ∃ producer ∈ scc, edge.source.producerNode = some producer) ↔
      ∃ keys, CycleIn graph scc keys ∧ key ∈ keys := by
  constructor
  · rintro ⟨consumerIn,producer,producerIn,made⟩
    have back := ((mem_component_iff wired exact mem consumerIn producer).mp producerIn).1
    obtain ⟨keys,cycle,onCycle⟩ := cycle_through found made back
    refine ⟨keys,⟨cycle,fun other onToo => ?_⟩,onCycle⟩
    obtain ⟨start,walk⟩ := cycle.closed
    obtain ⟨sameEdge,_,sameFound,sameProduced,toKey,fromKey⟩ := walk.around onCycle
    obtain ⟨otherEdge,_,otherFound,otherProduced,toOther,fromOther⟩ := walk.around onToo
    rw [mem_component_iff wired exact mem consumerIn]
    exact ⟨(fromKey.trans toOther).tail ⟨other,otherEdge,otherFound,otherProduced,rfl⟩,
      (fromOther.trans toKey).tail ⟨key,sameEdge,sameFound,sameProduced,rfl⟩⟩
  · rintro ⟨_,⟨cycle,inside⟩,onCycle⟩
    have consumerIn := inside key onCycle
    obtain ⟨_,walk⟩ := cycle.closed
    obtain ⟨_,producer,sameFound,made,toKey,fromKey⟩ := walk.around onCycle
    rw [found] at sameFound
    cases sameFound
    refine ⟨consumerIn,producer,?_,made⟩
    rw [mem_component_iff wired exact mem consumerIn]
    exact ⟨fromKey.trans toKey,.single ⟨key,edge,found,made,rfl⟩⟩

end

theorem ofList_component (exact : Tarjan.Exact (successors graph) (nodeIds graph) sccs)
    (mem : scc ∈ sccs) : (ofList scc).elems = scc := by
  have sorted := exact.sorted scc mem
  have same := ofList_elems (mk scc sorted)
  rw [same]

section

variable (wired : Wired graph) (exact : Tarjan.Exact (successors graph) (nodeIds graph) sccs)
  (mem : scc ∈ sccs)
include wired exact mem

theorem mem_uncorrelatedInside (correlated : OrderedSet EdgeKey) (key : EdgeKey) :
    key ∈ uncorrelatedInside graph.edges correlated (ofList scc) ↔
      key ∉ correlated.elems ∧ ∃ keys, CycleIn graph scc keys ∧ key ∈ keys := by
  have ends : ∀ edge, isInside (ofList scc) (key,edge) = true ↔
      key.consumer ∈ scc ∧
        ∃ producer ∈ scc, edge.source.producerNode = some producer := by
    intro _
    unfold isInside
    rw [Bool.and_eq_true,OrderedSet.contains_iff,ofList_component exact mem,Option.any_eq_true]
    simp only [OrderedSet.contains_iff,ofList_component exact mem]
    constructor
    · rintro ⟨used,producer,made,inside⟩
      exact ⟨used,producer,inside,made⟩
    · rintro ⟨used,producer,inside,made⟩
      exact ⟨used,producer,made,inside⟩
  unfold uncorrelatedInside
  rw [mem_filter,mem_map,Bool.not_eq_true',← Bool.not_eq_true,OrderedSet.contains_iff,and_comm]
  apply and_congr_right
  intro _
  constructor
  · rintro ⟨⟨_,edge⟩,kept,rfl⟩
    rw [mem_filter] at kept
    have found := get_eq_some_iff.mpr kept.1
    exact (inside_iff_cycle wired exact mem found).mp ((ends edge).mp kept.2)
  · rintro ⟨keys,cycle,onCycle⟩
    obtain ⟨_,walk⟩ := cycle.1.closed
    obtain ⟨edge,_,found,_⟩ := walk.around onCycle
    refine ⟨(key,edge),mem_filter.mpr ⟨get_eq_some_iff.mp found,?_⟩,rfl⟩
    exact (ends edge).mpr ((inside_iff_cycle wired exact mem found).mpr ⟨keys,cycle,onCycle⟩)

/-- An edge to warn about makes the component one that is checked. -/
theorem isCyclic_of_uncorrelated {correlated : OrderedSet EdgeKey}
    (listed : key ∈ uncorrelatedInside graph.edges correlated (ofList scc)) :
    isCyclic graph.edges scc = true := by
  obtain ⟨_,keys,cycle,onCycle⟩ :=
    (mem_uncorrelatedInside wired exact mem correlated key).mp listed
  obtain ⟨_,walk⟩ := cycle.1.closed
  obtain ⟨edge,_,found,_⟩ := walk.around onCycle
  obtain ⟨consumerIn,_,producerIn,made⟩ :=
    (inside_iff_cycle wired exact mem found).mpr ⟨keys,cycle,onCycle⟩
  have size : (ofList scc).len = scc.length := by
    unfold len
    rw [ofList_component exact mem]
  unfold isCyclic
  rw [size]
  match scc, consumerIn, producerIn with
  | [],consumerIn,_ => cases consumerIn
  | _ :: _ :: rest,_,_ => simp
  | [only],consumerIn,producerIn =>
    rw [mem_singleton] at consumerIn producerIn
    have loop : hasSelfLoop graph.edges only = true := by
      unfold hasSelfLoop
      rw [any_eq_true]
      refine ⟨(key,edge),get_eq_some_iff.mp found,?_⟩
      rw [producerIn] at made
      simp [consumerIn,made]
    simp [loop]

theorem diagnose_eq (correlated : OrderedSet EdgeKey) : diagnose graph.edges correlated scc =
      if (uncorrelatedInside graph.edges correlated (ofList scc)).isEmpty then none
      else some
        { nodes := scc
          uncorrelatedEdges :=
            uncorrelatedInside graph.edges correlated (ofList scc) } := by
  unfold diagnose
  cases held : uncorrelatedInside graph.edges correlated (ofList scc) with
  | nil => simp
  | cons key =>
    have listed : key ∈ uncorrelatedInside graph.edges correlated (ofList scc) := by
      rw [held]
      exact mem_cons_self
    have cyclic := isCyclic_of_uncorrelated wired exact mem listed
    simp [cyclic]

end

end Inside

/-- What the warnings about cycles say: one for each component with a cycle that uses an edge no
pattern explains, and in it exactly such edges. -/
def Faithful (graph : DataflowGraph) (sccs : List (List NodeId)) (correlated : OrderedSet EdgeKey)
    (reported : List CycleDiagnostic) : Prop :=
  (reported.map CycleDiagnostic.nodes).Sublist sccs ∧
    (∀ component ∈ sccs, component ∈ reported.map CycleDiagnostic.nodes ↔
      ∃ keys, CycleIn graph component keys ∧ ∃ key ∈ keys, key ∉ correlated.elems) ∧
    ∀ warning ∈ reported, ∀ key, key ∈ warning.uncorrelatedEdges ↔
      key ∉ correlated.elems ∧ ∃ keys, CycleIn graph warning.nodes keys ∧ key ∈ keys

theorem nodes_of_diagnose {edges : OrderedMap EdgeKey Edge} {correlated : OrderedSet EdgeKey}
    {scc : List NodeId} {warning : CycleDiagnostic}
    (reported : diagnose edges correlated scc = some warning) :
    warning.nodes = scc := by
  unfold diagnose at reported
  dsimp only at reported
  split at reported
  · cases reported
    rfl
  · cases reported

theorem nodes_cycleDiagnostics_sublist (sccs : List (List NodeId)) (edges : OrderedMap EdgeKey Edge)
    (correlated : OrderedSet EdgeKey) :
    ((cycleDiagnostics sccs edges correlated).map CycleDiagnostic.nodes).Sublist sccs := by
  unfold cycleDiagnostics
  induction sccs with
  | nil => exact .slnil
  | cons scc sccs ih =>
    cases reported : diagnose edges correlated scc with
    | none =>
      rw [List.filterMap_cons_none reported]
      exact ih.cons scc
    | some =>
      rw [List.filterMap_cons_some reported,map_cons,nodes_of_diagnose reported]
      exact ih.cons_cons scc

theorem diagnostics_faithful {sccs : List (List NodeId)} (wired : Wired graph)
    (exact : Tarjan.Exact (successors graph) (nodeIds graph) sccs)
    (correlated : OrderedSet EdgeKey) :
    Faithful graph sccs correlated (cycleDiagnostics sccs graph.edges correlated) := by
  refine ⟨nodes_cycleDiagnostics_sublist _ _ _,?_,?_⟩
  · intro scc mem
    have listed := mem_uncorrelatedInside wired exact mem correlated
    constructor
    · intro reported
      obtain ⟨warning,inReport,same⟩ := mem_map.mp reported
      obtain ⟨_,_,found⟩ := mem_filterMap.mp inReport
      rw [nodes_of_diagnose found] at same
      rw [same,diagnose_eq wired exact mem] at found
      split at found
      · cases found
      · rename_i someListed
        rw [List.isEmpty_iff,← ne_eq,ne_nil_iff_exists_cons] at someListed
        obtain ⟨key,_,held⟩ := someListed
        have first := (listed key).mp (by rw [held]; exact mem_cons_self)
        obtain ⟨uncorrelated,keys,cycle,onCycle⟩ := first
        exact ⟨keys,cycle,key,onCycle,uncorrelated⟩
    · rintro ⟨keys,cycle,key,onCycle,uncorrelated⟩
      have inside := (listed key).mpr ⟨uncorrelated,keys,cycle,onCycle⟩
      have full := diagnose_eq wired exact mem correlated
      rw [if_neg (by rw [List.isEmpty_iff]; exact ne_nil_of_mem inside)] at full
      exact mem_map.mpr ⟨_,mem_filterMap.mpr ⟨scc,mem,full⟩,rfl⟩
  · intro _ inReport key
    obtain ⟨_,mem,found⟩ := mem_filterMap.mp inReport
    rw [diagnose_eq wired exact mem] at found
    split at found
    · cases found
    · cases found
      exact mem_uncorrelatedInside wired exact mem correlated key

theorem computeSccs_exact (wired : Wired graph) : ∃ sccs, computeSccs graph = some sccs ∧
      Tarjan.Exact (successors graph) (nodeIds graph) sccs := by
  obtain ⟨state,ran,exact⟩ := Tarjan.components_exact (successors_known wired)
  refine ⟨state.components,?_,exact⟩
  unfold computeSccs
  rw [ran]
  rfl

/-- The components are the classes of mutual reachability, each node in exactly one, whatever the
order the edges were inserted in; the warnings are about the cycles inside them. -/
theorem cycle_analysis_exact (graph : DataflowGraph) (wired : Wired graph) :
    ∃ sccs, computeSccs graph = some sccs ∧ sccs.flatten.Perm (nodeIds graph) ∧
      (∀ first ∈ nodeIds graph, ∀ second ∈ nodeIds graph,
        (∃ component ∈ sccs, first ∈ component ∧ second ∈ component) ↔
          Path graph first second ∧ Path graph second first) ∧
      (∀ inserted : List (EdgeKey × Edge), inserted.Perm graph.edges.entries →
        computeSccs { graph with edges := OrderedMap.ofList inserted } = some sccs) ∧
      ∀ correlated, Faithful graph sccs correlated
        (cycleDiagnostics sccs graph.edges correlated) := by
  obtain ⟨sccs,computed,exact⟩ := computeSccs_exact wired
  have distinct : (nodeIds graph).Nodup := graph.nodes.sorted.imp ne_of_lt
  refine ⟨sccs,computed,exact.flatten_perm distinct,?_,?_,diagnostics_faithful wired exact⟩
  · intro _ firstKnown _ secondKnown
    rw [exact.together_iff firstKnown,path_iff wired firstKnown,path_iff wired secondKnown]
  · intro inserted shuffled
    have keys : (inserted.map Prod.fst).Nodup :=
      (shuffled.map Prod.fst).nodup_iff.mpr (graph.edges.sorted.imp ne_of_lt)
    have same : OrderedMap.ofList inserted = graph.edges := by
      apply OrderedMap.ext_get
      intro _
      apply Option.ext
      intro _
      rw [OrderedMap.get_ofList keys,OrderedMap.get_eq_some_iff,shuffled.mem_iff]
    rw [same]
    exact computed

/-- Two nodes that feed each other, and one that feeds itself. -/
def looped : DataflowGraph :=
  let fed := fun node : Char => Edge.mk (.nodeOutput [node] ['o']) ⟨1,.dropOldest⟩
  { nodes := OrderedMap.ofList
      [(['a'],.plain [['o']] [['i']] none),(['b'],.plain [['o']] [['i']] none),
        (['c'],.plain [['o']] [['i'],['s']] none)]
    edges := OrderedMap.ofList
      [(⟨['a'],['i']⟩,fed 'b'),(⟨['b'],['i']⟩,fed 'a'),(⟨['c'],['i']⟩,fed 'a'),
        (⟨['c'],['s']⟩,fed 'c')]
    strictTypes := false
    typeRules := [] }

theorem looped_components : Wired looped ∧ computeSccs looped = some [[['a'],['b']],[['c']]] ∧
      Path looped ['b'] ['a'] := by
  have wired : Wired looped := by
    intro _ _ found
    rw [OrderedMap.get_eq_some_iff] at found
    have all : ∀ binding ∈ looped.edges.entries, binding.1.consumer ∈ nodeIds looped := by
      decide +kernel
    exact all _ found
  have computed : computeSccs looped = some [[['a'],['b']],[['c']]] := by decide +kernel
  obtain ⟨_,found,_,together,_⟩ := cycle_analysis_exact looped wired
  cases found
  refine ⟨wired,computed,?_⟩
  have shared := (together ['b'] (by decide +kernel) ['a'] (by decide +kernel)).mp
    ⟨[['a'],['b']],by decide,by decide,by decide⟩
  exact shared.1

end Astrs.Graph
