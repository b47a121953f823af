/-
What a successful expansion of one scope has done, node by node.

The two passes over a manifest are read off once: every later argument follows the
trace of the hosts and the batches of nodes.
-/

import Astrs.Manifests.Capture

namespace Astrs.Manifests

open Astrs.Base List

structure ValidNodes (manifest : Manifest) : Prop where
  charset : ∀ node ∈ manifest.nodes, isValidIdCharset node.id = true
  distinct : (manifest.nodes.map Node.id).Nodup
  resolves : ∀ node ∈ manifest.nodes, ∀ source ∈ node.entries, manifest.resolve source = .ok ()

theorem checkNodeIds_nil {earlier nodes : List Node} (clean : checkNodeIds earlier nodes = []) :
    (∀ node ∈ nodes, isValidIdCharset node.id = true) ∧ (nodes.map Node.id).Nodup ∧
      ∀ node ∈ nodes, node.id ∉ earlier.map Node.id := by
  induction nodes generalizing earlier with
  | nil => exact ⟨forall_mem_nil _,nodup_nil,
      forall_mem_nil _⟩
  | cons node rest ih =>
    obtain ⟨here,later⟩ := append_eq_nil_iff.mp clean
    obtain ⟨charset,distinct,fresh⟩ := ih later
    obtain ⟨valid,unseen⟩ := append_eq_nil_iff.mp here
    have validHere : isValidIdCharset node.id = true := by
      by_contra invalid
      rw [if_neg invalid] at valid
      cases valid
    have freshHere : node.id ∉ earlier.map Node.id := by
      intro seen
      rw [if_pos seen] at unseen
      cases unseen
    refine ⟨?_,?_,?_⟩
    · exact forall_mem_cons.mpr ⟨validHere,charset⟩
    · rw [map_cons,nodup_cons]
      refine ⟨?_,distinct⟩
      intro repeated
      obtain ⟨item,present,same⟩ := mem_map.mp repeated
      apply fresh item present
      rw [same,map_append,mem_append]
      exact .inr (mem_singleton.mpr rfl)
    · intro item present
      rcases mem_cons.mp present with rfl | later
      · exact freshHere
      · intro seen
        apply fresh item later
        rw [map_append,mem_append]
        exact .inl seen

variable {manifest : Manifest} {files : Files}

theorem checkReference_nil {index : Nat} {place : Place} {value : Text}
    (clean : manifest.checkReference index place value = []) : manifest.resolve value = .ok () := by
  unfold Manifest.checkReference at clean
  split at clean
  · assumption
  · cases clean

theorem exists_mem_zipIdx {α : Type} {items : List α} {item : α} (present : item ∈ items) :
    ∃ index, (item,index) ∈ items.zipIdx := by
  obtain ⟨index,bound,found⟩ := List.getElem_of_mem present
  refine ⟨index,mem_zipIdx_iff_getElem?.mpr ?_⟩
  rw [List.getElem?_eq_getElem bound,found]

theorem validNodes (valid : manifest.validate = []) : ValidNodes manifest := by
  obtain ⟨front,records⟩ := append_eq_nil_iff.mp valid
  obtain ⟨ids,inputs⟩ := append_eq_nil_iff.mp front
  obtain ⟨charset,distinct,-⟩ := checkNodeIds_nil ids
  refine ⟨charset,distinct,?_⟩
  intro _ present _ entry
  obtain ⟨_,indexed⟩ := exists_mem_zipIdx present
  rcases mem_append.mp entry with ofInput | ofRecord
  · obtain ⟨_,held,rfl⟩ := mem_map.mp ofInput
    obtain ⟨binding,bound,rfl⟩ := mem_map.mp held
    have clean := List.flatMap_eq_nil_iff.mp inputs _ indexed
    have checked := List.flatMap_eq_nil_iff.mp clean binding bound
    exact checkReference_nil (append_eq_nil_iff.mp checked).2
  · obtain ⟨_,placed⟩ := exists_mem_zipIdx ofRecord
    have clean := List.flatMap_eq_nil_iff.mp records _ indexed
    exact checkReference_nil (List.flatMap_eq_nil_iff.mp clean _ placed)

/-- Every document a host may be expanded with loads a tree it stands in the relation to; there
is none at the depth limit. -/
def Children (expand : Option Expansion) (load : Option (Path → Manifest → Option (List Member)))
    (expands : Manifest → List Member → ScopeInput → ScopeResult → Prop) : Prop :=
  ∀ expandChild, expand = some expandChild → ∃ loadChild, load = some loadChild ∧
    ∀ stack manifest input child, expandChild stack manifest input = .ok child →
      ∃ inner, loadChild input.baseDir manifest = some inner ∧ expands manifest inner input child

/-- The first pass over the nodes of a scope, from the rewrites before to those after. -/
inductive HostTrace
    (expands : Manifest → List Member → ScopeInput → ScopeResult → Prop) (input : ScopeInput) :
    OutputRewrites → List Node → List Member → OutputRewrites → List (Option (List Node)) → Prop
  | nil (rewrites : OutputRewrites) : HostTrace expands input rewrites [] [] rewrites []
  | plain {node : Node} {nodes : List Node} {scope : List Member} {rewrites after : OutputRewrites}
      {batches : List (Option (List Node))}
      (rest : HostTrace expands input rewrites nodes scope after batches) :
      HostTrace expands input rewrites (node :: nodes) (.plain node :: scope) after (none :: batches)
  | hosted {host : Node} {manifest : Manifest} {inner : List Member} {header : ModuleHeader}
      {childInput : ScopeInput} {child annotated : ScopeResult} {nodes : List Node}
      {scope : List Member} {rewrites recorded after : OutputRewrites}
      {batches : List (Option (List Node))}
      (expanded : expands manifest inner childInput child)
      (bounded : childBoundary input rewrites header host = .ok childInput.boundary)
      (exposed : recordOutputRewrites host child rewrites = .ok (annotated,recorded))
      (rest : HostTrace expands input recorded nodes scope after batches) :
      HostTrace expands input rewrites (host :: nodes) (.hosted host manifest inner :: scope) after
        (some (prefixChildNodes host annotated) :: batches)

theorem expandModuleHost_ok {options : ExpandOptions} {expand : Option Expansion}
    {stack : List Path} {input : ScopeInput} {rewrites : OutputRewrites} {host : Node}
    {moduleField : Text} {child : ScopeResult}
    (expanded : expandModuleHost files options expand stack input rewrites host moduleField =
      .ok child) :
    ∃ expandChild manifest header boundary, expand = some expandChild ∧
      files (resolveModulePath input.baseDir moduleField) = .ok manifest ∧
      childBoundary input rewrites header host = .ok boundary ∧
      expandChild (stack ++ [resolveModulePath input.baseDir moduleField]) manifest {
          baseDir := (parent (resolveModulePath input.baseDir moduleField)).getD input.baseDir
          ancestorEnv := mergeEnv manifest.env input.ancestorEnv
          boundary := boundary
          location := .moduleManifest (resolveModulePath input.baseDir moduleField) } =
        .ok child := by
  unfold expandModuleHost at expanded
  dsimp only at expanded
  split at expanded
  · cases expanded
  · split at expanded
    · cases expanded
    · rename_i expandChild
      obtain ⟨⟨manifest,header⟩,loaded,checked⟩ := bind_ok expanded
      obtain ⟨-,-,bounding⟩ := bind_ok checked
      obtain ⟨boundary,bounded,inside⟩ := bind_ok bounding
      refine ⟨expandChild,manifest,header,boundary,rfl,?_,bounded,inside⟩
      unfold loadModule at loaded
      split at loaded
      · cases loaded
      · rename_i read
        split at loaded
        · cases loaded
        · cases loaded
          exact read

section

variable {options : ExpandOptions} {expand : Option Expansion} {stack : List Path}
  {input : ScopeInput} {nodes : List Node} {load : Option (Path → Manifest → Option (List Member))}
  {expands : Manifest → List Member → ScopeInput → ScopeResult → Prop}

theorem HostTrace.nodes_eq {scope : List Member} {rewrites after : OutputRewrites}
    {batches : List (Option (List Node))}
    (trace : HostTrace expands input rewrites nodes scope after batches) :
    scope.map Member.node = nodes := by
  induction trace with
  | nil => rfl
  | plain _ ih | hosted _ _ _ _ ih =>
    rw [map_cons,ih]
    rfl

theorem hostTrace_of_ok {pass final : HostPass} (children : Children expand load expands)
    (passed : nodes.foldlM (hostStep files options expand stack input) pass = .ok final) :
    ∃ scope batches, nodes.mapM (loadMember files input.baseDir load) = some scope ∧
      final.modules = pass.modules ++ batches ∧
      HostTrace expands input pass.outputRewrites nodes scope final.outputRewrites batches := by
  induction nodes generalizing pass with
  | nil =>
    cases passed
    exact ⟨[],[],rfl,(append_nil _).symm,.nil _⟩
  | cons node nodes ih =>
    obtain ⟨_,stepped,rest⟩ := bind_ok passed
    obtain ⟨scope,batches,loaded,modules,trace⟩ := ih rest
    unfold hostStep at stepped
    cases hosting : node.module with
    | none =>
      rw [hosting] at stepped
      cases stepped
      refine ⟨.plain node :: scope,none :: batches,?_,?_,.plain trace⟩
      · rw [List.mapM_cons,loadMember,hosting,loaded]
        rfl
      · rw [modules,append_assoc]
        rfl
    | some =>
      rw [hosting] at stepped
      obtain ⟨_,expanded,recording⟩ := bind_ok stepped
      obtain ⟨⟨annotated,_⟩,exposed,done⟩ := bind_ok recording
      cases done
      obtain ⟨expandChild,manifest,_,_,present,read,bounded,ran⟩ := expandModuleHost_ok expanded
      obtain ⟨_,rfl,each⟩ := children expandChild present
      obtain ⟨inner,inside,met⟩ := each _ _ _ _ ran
      refine ⟨.hosted node manifest inner :: scope,some (prefixChildNodes node annotated) :: batches,
        ?_,?_,.hosted met bounded exposed trace⟩
      · rw [List.mapM_cons,loadMember,hosting,loaded]
        dsimp only at inside ⊢
        rw [read]
        dsimp only
        rw [inside]
        rfl
      · rw [modules,append_assoc]
        rfl

theorem insertIds_ok {location : Location} {ids final : List Text}
    (added : nodes.foldlM (insertId location) ids = .ok final) :
    final = ids ++ nodes.map Node.id := by
  induction nodes generalizing ids with
  | nil =>
    cases added
    exact (append_nil _).symm
  | cons node rest ih =>
    obtain ⟨_,first,others⟩ := bind_ok added
    unfold insertId at first
    split at first
    · cases first
    · cases first
      rw [ih others,append_assoc]
      rfl

theorem expandNodes_ok {result : ScopeResult} (children : Children expand load expands)
    (expanded : expandNodes files options expand stack manifest input = .ok result) :
    ∃ scope rewrites batches lists,
      manifest.nodes.mapM (loadMember files input.baseDir load) = some scope ∧
      HostTrace expands input OrderedMap.empty manifest.nodes scope rewrites batches ∧
      List.Forall₂ (fun item list => batch input rewrites item = .ok list)
        (manifest.nodes.zip batches) lists ∧
      result.nodes = lists.flatten ∧ result.localIds = result.nodes.map Node.id := by
  obtain ⟨final,passed,remaining⟩ := bind_ok expanded
  obtain ⟨lists,mapped,assembling⟩ := bind_ok remaining
  obtain ⟨_,added,done⟩ := bind_ok assembling
  cases done
  obtain ⟨scope,batches,loaded,modules,trace⟩ := hostTrace_of_ok children passed
  rw [modules] at mapped
  refine ⟨scope,final.outputRewrites,batches,lists,loaded,trace,mapM_ok mapped,rfl,?_⟩
  rw [insertIds_ok added,nil_append]

end

end Astrs.Manifests
