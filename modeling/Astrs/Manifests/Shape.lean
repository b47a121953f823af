/-
The nodes of an expanded scope, and the names its modules expose.

Whatever the references in them, the flattened nodes are those inside the scope under
their flat ids, and the rewrites recorded for a host lead to the one producer inside
its module.
-/

import Astrs.Manifests.Trace

namespace Astrs.Manifests

open Astrs.Base List Node

def Node.bare (node : Node) : Node := { node with outputTypes := OrderedMap.empty }

theorem annotate_bare (type : Option Urn) (producer spelling : Text) (nodes : List Node) :
    (annotate type producer spelling nodes).map bare = nodes.map bare := by
  induction nodes with
  | nil => rfl
  | cons node rest ih =>
    unfold annotate
    split
    · split <;> rfl
    · rw [map_cons,ih,map_cons]

def Shaped (node : Node) (item : Inner) : Prop :=
  node.id = item.name ∧ node.outputs = item.node.outputs

variable {items : List Inner} {nodes : List Node} {inner scope : List Member} {host node : Node}
  {before after : ScopeResult × OutputRewrites} {input : ScopeInput}

/-- What holds of nodes whatever their output types are survives annotation. -/
theorem forall₂_of_bare {α : Type} {related : Node → α → Prop} {left right : List Node}
    {items : List α} (blind : ∀ node item, related node.bare item ↔ related node item)
    (all : List.Forall₂ related left items) (same : right.map bare = left.map bare) :
    List.Forall₂ related right items := by
  have erased : List.Forall₂ related (left.map bare) items :=
    List.forall₂_map_left_iff.mpr (all.imp fun _ _ => (blind _ _).mpr)
  rw [← same] at erased
  exact (List.forall₂_map_left_iff.mp erased).imp fun _ _ => (blind _ _).mp

theorem Shaped.bare_iff (node : Node) (item : Inner) : Shaped node.bare item ↔ Shaped node item :=
  Iff.rfl

theorem ids_of_shaped
    (shaped : List.Forall₂ Shaped nodes items) : nodes.map Node.id = items.map Inner.name := by
  induction shaped with
  | nil => rfl
  | cons here _ ih => rw [map_cons,map_cons,here.1,ih]

theorem producers_shaped (shaped : List.Forall₂ Shaped nodes (innerNodes inner)) (port : Text) :
    producers port nodes = (candidates inner port).map fun found => (found.1.name,found.2) := by
  unfold producers candidates
  generalize innerNodes inner = items at shaped
  induction shaped with
  | nil => rfl
  | cons here _ ih =>
    rw [List.flatMap_cons,List.flatMap_cons,map_append,ih,here.1,here.2,map_map]
    rfl

theorem producer_of_only {port name spelling : Text}
    (shaped : List.Forall₂ Shaped nodes (innerNodes inner))
    (only : producers port nodes = [(name,spelling)]) :
    ∃ item, producer inner port = some (item,spelling) ∧ item.name = name := by
  rw [producers_shaped shaped] at only
  obtain ⟨found,sole,same⟩ := map_eq_singleton_iff.mp only
  cases same
  refine ⟨found.1,?_,rfl⟩
  unfold producer
  rw [sole]

def exposedAs (inner : List Member) (host port : Text) : Option Text :=
  (producer inner port).map fun found => host ++ '.' :: found.1.name ++ '/' :: found.2

theorem recordOutputRewrite_ok
    {port : Text} (noted : recordOutputRewrite host before port = .ok after) :
    ∃ name spelling, producers port before.1.nodes = [(name,spelling)] ∧
      after.1.nodes.map bare = before.1.nodes.map bare ∧
      after.1.localIds = before.1.localIds ∧
      after.2 = before.2.insert (host.id ++ '/' :: port)
        (host.id ++ '.' :: name ++ '/' :: spelling) := by
  unfold recordOutputRewrite at noted
  split at noted
  · cases noted
  · rename_i name spelling only
    cases noted
    exact ⟨name,spelling,only,annotate_bare _ _ _ _,rfl,rfl⟩
  · cases noted

structure Exposed (host : Node) (ports : List Text) (inner : List Member)
    (before after : ScopeResult × OutputRewrites) : Prop where
  nodes : after.1.nodes.map bare = before.1.nodes.map bare
  ids : after.1.localIds = before.1.localIds
  produced : ∀ port ∈ ports, (producer inner port).isSome = true
  rewrites : ∀ id output, '/' ∉ id → after.2.get (id ++ '/' :: output) =
      if id = host.id ∧ output ∈ ports then exposedAs inner host.id output
      else before.2.get (id ++ '/' :: output)

theorem recordOutputRewrites_exposed (plain : '/' ∉ host.id) (ports : List Text)
    (shaped : List.Forall₂ Shaped before.1.nodes (innerNodes inner))
    (noted : ports.foldlM (recordOutputRewrite host) before = .ok after) :
    Exposed host ports inner before after := by
  induction ports generalizing before with
  | nil =>
    cases noted
    refine ⟨rfl,rfl,forall_mem_nil _,?_⟩
    intro _ _ _
    rw [if_neg]
    rintro ⟨-,absent⟩
    exact absurd absent not_mem_nil
  | cons port ports ih =>
    obtain ⟨_,first,others⟩ := bind_ok noted
    obtain ⟨_,_,only,nodes,ids,rewritten⟩ := recordOutputRewrite_ok first
    obtain ⟨_,sole,named⟩ := producer_of_only shaped only
    have later := ih (forall₂_of_bare Shaped.bare_iff shaped nodes) others
    refine ⟨later.nodes.trans nodes,later.ids.trans ids,?_,?_⟩
    · intro exposed member
      rcases mem_cons.mp member with rfl | further
      · rw [sole]
        rfl
      · exact later.produced exposed further
    · intro id output slashless
      rw [later.rewrites id output slashless,rewritten,OrderedMap.get_insert]
      by_cases further : id = host.id ∧ output ∈ ports
      · rw [if_pos further,if_pos ⟨further.1,mem_cons_of_mem _ further.2⟩]
      · rw [if_neg further]
        by_cases here : id = host.id ∧ output = port
        · obtain ⟨rfl,rfl⟩ := here
          rw [if_pos rfl,if_pos ⟨rfl,mem_cons_self⟩,exposedAs,sole,← named]
          rfl
        · rw [if_neg,if_neg]
          · rintro ⟨same,member⟩
            rcases mem_cons.mp member with isPort | inRest
            · exact here ⟨same,isPort⟩
            · exact further ⟨same,inRest⟩
          · intro same
            obtain ⟨ids,outputs⟩ := reference_inj plain slashless same
            exact here ⟨ids.symm,outputs.symm⟩

/-! ### The shape of a scope -/

structure Shape (result : ScopeResult) (scope : List Member) : Prop where
  nodes : List.Forall₂ Shaped result.nodes (innerNodes scope)
  ids : result.localIds = innerNames scope
  plain : ∀ name ∈ innerNames scope, '/' ∉ name

theorem rewritePlainNode_ok {boundary : Boundary} {rewrites : OutputRewrites} {location : Location}
    {after : Node} (rewritten : rewritePlainNode boundary rewrites location node = .ok after) :
    after.id = node.id ∧ after.outputs = node.outputs ∧
      after.inputs.entries.map Prod.fst = node.inputs.entries.map Prod.fst ∧
      List.Forall₂ (fun source new => ∃ hint,
        rewritePlainSource boundary rewrites location source = .ok (new,hint))
        node.entries after.entries := by
  obtain ⟨sources,inputs,remaining⟩ := bind_ok rewritten
  obtain ⟨_,records,done⟩ := bind_ok remaining
  cases done
  have pairs := mapM_ok inputs
  have long : (List.zipWith (fun (input : Input) (new : Text × Option Urn) =>
      { input with source := new.1 }) node.inputs.values sources).length =
        node.inputs.values.length := by
    rw [length_zipWith,pairs.length_eq,Nat.min_self]
  refine ⟨rfl,rfl,OrderedMap.keys_withValues _ _ long,?_⟩
  unfold entries
  rw [OrderedMap.values_withValues _ _ long]
  apply rel_append
  · clear long inputs rewritten remaining
    generalize node.inputs.values = old at pairs
    induction pairs with
    | nil => exact .nil
    | cons here _ ih => exact .cons ⟨_,here⟩ ih
  · have noted := mapM_ok records
    cases held : node.record with
    | none => exact .nil
    | some =>
      rw [held] at noted
      rw [Option.map_some,Option.getD_some,Option.getD_some]
      clear records
      rw [List.forall₂_map_right_iff]
      exact noted.imp fun _ _ rewrote => ⟨_,rewrote⟩

theorem shaped_prefixChildNode {item : Inner} (host : Text) (localIds : List Text)
    (shaped : Shaped node item) :
    Shaped (prefixChildNode host localIds node) (item.under host) := by
  constructor
  · change host ++ '.' :: node.id = host ++ '.' :: item.name
    rw [shaped.1]
  · exact shaped.2

/-- Every valid document that is expanded comes out in the shape of its scope. -/
def Shapes (expands : Manifest → List Member → ScopeInput → ScopeResult → Prop) : Prop :=
  ∀ manifest inner childInput child, expands manifest inner childInput child →
    manifest.validate = [] → (∀ item ∈ moduleManifests inner, item.validate = []) →
      Shape child inner

section

variable {expands : Manifest → List Member → ScopeInput → ScopeResult → Prop}
  {rewrites after final : OutputRewrites} {batches : List (Option (List Node))}
  {lists : List (List Node)}

theorem shaped_of_trace (shapes : Shapes expands)
    (trace : HostTrace expands input rewrites nodes scope after batches)
    (named : ∀ node ∈ nodes, '/' ∉ node.id)
    (valid : ∀ manifest ∈ moduleManifests scope, manifest.validate = [])
    (made : List.Forall₂ (fun item list => batch input final item = .ok list) (nodes.zip batches)
      lists) :
    List.Forall₂ Shaped lists.flatten (innerNodes scope) ∧ (∀ name ∈ innerNames scope, '/' ∉ name) ∧
      ∀ host manifest inner, .hosted host manifest inner ∈ scope →
        (∀ name ∈ innerNames inner, '/' ∉ name) ∧
          ∀ port ∈ host.outputs, (producer inner port).isSome = true := by
  induction trace generalizing lists with
  | nil =>
    cases made
    refine ⟨.nil,forall_mem_nil _,?_⟩
    intro _ _ _ absent
    exact absurd absent not_mem_nil
  | @plain node nodes scope _ _ batches _ ih =>
    cases made with
    | @cons _ list _ lists here others =>
      obtain ⟨shaped,plain,exposes⟩ := ih
        (fun item later => named item (mem_cons_of_mem _ later)) valid others
      obtain ⟨_,made,done⟩ := bind_ok here
      cases done
      obtain ⟨id,outputs,-,-⟩ := rewritePlainNode_ok made
      refine ⟨.cons ⟨id,outputs⟩ shaped,?_,?_⟩
      · exact forall_mem_cons.mpr ⟨named node mem_cons_self,plain⟩
      · intro host manifest inner there
        rcases mem_cons.mp there with absent | later
        · cases absent
        · exact exposes host manifest inner later
  | @hosted host manifest inner _ childInput child annotated nodes scope rewrites noted
      _ batches expanded _ exposed _ ih =>
      have validHere : manifest.validate = [] := valid manifest mem_cons_self
      have validInner : ∀ item ∈ moduleManifests inner, item.validate = [] := by
        intro item there
        exact valid item (mem_cons_of_mem _ (mem_append_left _ there))
      have validRest : ∀ item ∈ moduleManifests scope, item.validate = [] := by
        intro item there
        exact valid item (mem_append_right _ there)
      have shape := shapes manifest inner childInput child expanded validHere validInner
      have slashless := named host mem_cons_self
      have exposing := recordOutputRewrites_exposed slashless host.outputs shape.nodes exposed
      cases made with
      | @cons _ list _ lists here others =>
        obtain ⟨shaped,plain,exposes⟩ := ih
          (fun item later => named item (mem_cons_of_mem _ later)) validRest others
        cases here
        have child := forall₂_of_bare Shaped.bare_iff shape.nodes exposing.nodes
        refine ⟨?_,?_,?_⟩
        · apply rel_append
          · unfold Member.nodes prefixChildNodes
            rw [List.forall₂_map_left_iff,List.forall₂_map_right_iff]
            exact child.imp fun _ _ => shaped_prefixChildNode host.id _
          · exact shaped
        · intro name there
          unfold innerNames innerNodes at there
          rw [map_append] at there
          rcases mem_append.mp there with isInner | later
          · unfold Member.nodes at isInner
            rw [map_map] at isInner
            obtain ⟨item,held,rfl⟩ := mem_map.mp isInner
            exact (isName_under slashless (shape.plain item.name (mem_map_of_mem held))).plain
          · exact plain name later
        · intro other otherManifest otherInner there
          rcases mem_cons.mp there with same | later
          · cases same
            exact ⟨shape.plain,exposing.produced⟩
          · exact exposes other otherManifest otherInner later

end

end Astrs.Manifests
