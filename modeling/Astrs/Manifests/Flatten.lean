/-
The wiring of a flattened manifest.
-/

import Astrs.Manifests.Wiring

namespace Astrs.Manifests

open Astrs.Base OrderedMap

/-! ### Whole expansions -/

section

variable {files : Files} {options : ExpandOptions} {input : ScopeInput} {stack : List Path}
  {expand : Option Expansion} {load : Option (Path → Manifest → Option (List Member))}
  {manifest : Manifest} {result : ScopeResult}

theorem expandNodes_meets (children : Children expand load Meets)
    (expanded : expandNodes files options expand stack manifest input = .ok result) :
    ∃ scope, manifest.nodes.mapM (loadMember files input.baseDir load) = some scope ∧
      Meets manifest scope input result := by
  obtain ⟨scope,_,_,_,loaded,trace,made,nodes,ids⟩ := expandNodes_ok children expanded
  refine ⟨scope,loaded,fun valid modules => ?_⟩
  have checked := validNodes valid
  have named : ∀ node ∈ manifest.nodes, '/' ∉ node.id := fun node present =>
    (isName_of_valid (checked.charset node present)).plain
  obtain ⟨shaped,plain,exposes⟩ := shaped_of_trace
    (fun _ _ _ _ meets validChild validInner => (meets validChild validInner).1) trace named modules
    made
  refine ⟨⟨nodes ▸ shaped,?_,plain⟩,fun levels leads ports => ?_⟩
  · rw [ids,nodes,ids_of_shaped shaped]
    rfl
  · have distinct : (scope.map fun other => other.node.id).Nodup := by
      have unique := checked.distinct
      rw [← trace.nodes_eq,List.map_map] at unique
      exact unique
    have setting : Setting levels scope manifest input.boundary :=
      ⟨leads,trace.nodes_eq,checked,exposes,ports⟩
    have whole : scope = [] ++ scope := rfl
    obtain ⟨recorded,fits⟩ := fits_of_trace trace named modules whole distinct .start setting made
    rw [nodes]
    exact fits recorded

theorem expandScope_meets (depth : Nat)
    (expanded : expandScope files options depth stack manifest input = .ok result) :
    ∃ scope, members files depth input.baseDir manifest = some scope ∧
      Meets manifest scope input result := by
  induction depth generalizing stack input manifest result with
  | zero =>
    refine expandNodes_meets ?_ expanded
    intro _ absent
    cases absent
  | succ depth ih =>
    refine expandNodes_meets ?_ expanded
    intro _ same
    cases same
    exact ⟨_,rfl,fun _ _ _ _ ran => ih ran⟩

theorem expand_fits {root flat : Manifest} {baseDir : Path}
    (expanded : expandWithOptions root baseDir files options = .ok flat) :
    ∃ scope, members files options.maxDepth baseDir root = some scope ∧ (root.validate = [] →
      (∀ item ∈ moduleManifests scope, item.validate = []) →
        List.Forall₂ (Fits []) flat.nodes (leaves scope)) := by
  obtain ⟨_,ran,done⟩ := bind_ok expanded
  cases done
  obtain ⟨scope,loaded,meets⟩ := expandScope_meets options.maxDepth ran
  refine ⟨scope,loaded,fun valid modules => ?_⟩
  have fits := (meets valid modules).2 [] trivial nofun
  rw [List.forall₂_map_left_iff]
  exact fits.imp fun _ _ fit => { fit with }

end

theorem forall₂_iff_forall {α β : Type} {related : α → β → Prop} {property : β → Prop}
    {left : List α} {right : List β}
    (each : List.Forall₂ (fun first second => related first second ↔ property second) left right) :
    List.Forall₂ related left right ↔ ∀ item ∈ right, property item := by
  induction each with
  | nil => simp
  | cons here _ ih => rw [List.forall₂_cons,ih,here,List.forall_mem_cons]

theorem wired_iff {node : Node} {leaf : Leaf} (fits : Fits [] node leaf) :
    Wired node leaf ↔ ∀ source ∈ leaf.node.entries, Uncaptured leaf source := by
  have each : List.Forall₂ (fun text source => Names leaf text source ↔ Uncaptured leaf source)
      node.entries leaf.node.entries := by
    refine fits.entries.imp ?_
    rintro text source ⟨_,means,right⟩
    rw [← right]
    unfold Names
    rw [means,Option.map_some,Option.some.injEq]
    exact eq_comm
  rw [← forall₂_iff_forall each]
  constructor
  · exact fun wired => wired.entries
  · exact fun entries => ⟨fits.id,fits.outputs,fits.ports,entries⟩

/-- The flattened nodes of valid manifests are the leaves of the tree, and every reference in
them names what it means in its own scope, exactly when no reference that was passed
into a module was captured there. -/
theorem wiring_preserved_iff (files : Files) (options : ExpandOptions) (baseDir : Path)
    (root flat : Manifest) (valid : root.validate = [])
    (expanded : expandWithOptions root baseDir files options = .ok flat) :
    ∃ scope, members files options.maxDepth baseDir root = some scope ∧
      ((∀ manifest ∈ moduleManifests scope, manifest.validate = []) →
        (List.Forall₂ Wired flat.nodes (leaves scope) ↔
          ∀ leaf ∈ leaves scope, ∀ source ∈ leaf.node.entries, Uncaptured leaf source)) := by
  obtain ⟨scope,loaded,fits⟩ := expand_fits expanded
  exact ⟨scope,loaded,fun modules =>
    forall₂_iff_forall ((fits valid modules).imp fun _ _ => wired_iff)⟩

def camera : Text := ['c','a','m']
def perception : Text := ['p','e','r']
def detector : Text := ['d','e','t']
def frames : Text := ['f','r','a']

def simpleNode (id : Text) (moduleField : Option Text) (input : Option (Text × Text))
    (outputs : List Text) : Node :=
  { id := id
    module := moduleField
    record := none
    env := empty
    inputs := input.elim empty fun binding =>
      empty.insert binding.1 ⟨binding.2,10⟩
    outputs := outputs
    inputTypes := empty
    outputTypes := empty }

/-- A camera that feeds a module. -/
def rootManifest : Manifest :=
  { nodes := [simpleNode camera none none [frames],
      simpleNode perception (some perception) (some (frames,camera ++ '/' :: frames)) []]
    typeRules := []
    env := empty
    module := none }

def moduleManifest (other : Text) : Manifest :=
  { nodes := [simpleNode other none none [frames],
      simpleNode detector none (some (frames,moduleBoundaryNodeId ++ '/' :: frames)) []]
    typeRules := []
    env := empty
    module := some ⟨perception,[frames],[]⟩ }

def moduleFile (other : Text) : Files := fun path =>
  if path = [.normal perception] then .ok (moduleManifest other) else .error .io

def moduleTree (other : Text) : List Member := [.plain (simpleNode camera none none [frames]),
    .hosted (simpleNode perception (some perception) (some (frames,camera ++ '/' :: frames)) [])
      (moduleManifest other)
      [.plain (simpleNode other none none [frames]),
        .plain (simpleNode detector none (some (frames,moduleBoundaryNodeId ++ '/' :: frames)) [])]]

theorem members_moduleFile (other : Text) :
    members (moduleFile other) ExpandOptions.default.maxDepth [] rootManifest =
      some (moduleTree other) := rfl

/-- With no camera in the module the detector gets the frames of the one outside. -/
theorem detector_reads_camera :
    ∃ flat, expand rootManifest [] (moduleFile ['l','e','n','s']) = .ok flat ∧
      flat.nodes.map Node.entries = [[],[],[camera ++ '/' :: frames]] ∧
      List.Forall₂ Wired flat.nodes (leaves (moduleTree ['l','e','n','s'])) := by
  have checked : (expand rootManifest [] (moduleFile ['l','e','n','s'])).map
      (fun flat => flat.nodes.map Node.entries) = .ok [[],[],[camera ++ '/' :: frames]] := by
    decide +kernel
  obtain ⟨flat,expanded,entries⟩ := map_ok checked
  obtain ⟨_,loaded,wired⟩ := wiring_preserved_iff (moduleFile ['l','e','n','s'])
    ExpandOptions.default [] rootManifest flat (by decide +kernel) expanded
  cases (members_moduleFile _).symm.trans loaded
  exact ⟨flat,expanded,entries,(wired (by decide +kernel)).mpr (by decide +kernel)⟩

/-- A camera in the module captures the name of the one outside: all manifests are valid, the
flattened one too, and the detector reads the wrong camera. -/
theorem detector_reads_wrong_camera :
    rootManifest.validate = [] ∧ (moduleManifest camera).validate = [] ∧
      ∃ flat, expand rootManifest [] (moduleFile camera) = .ok flat ∧ flat.validate = [] ∧
        flat.nodes.map Node.entries = [[],[],[perception ++ '.' :: camera ++ '/' :: frames]] ∧
        ¬ List.Forall₂ Wired flat.nodes (leaves (moduleTree camera)) := by
  have valid : rootManifest.validate = [] := by decide +kernel
  have modules : ∀ manifest ∈ moduleManifests (moduleTree camera), manifest.validate = [] := by
    decide +kernel
  have checked : (expand rootManifest [] (moduleFile camera)).map
      (fun flat => (flat.validate,flat.nodes.map Node.entries)) =
        .ok ([],[[],[],[perception ++ '.' :: camera ++ '/' :: frames]]) := by
    decide +kernel
  obtain ⟨flat,expanded,both⟩ := map_ok checked
  obtain ⟨flatValid,entries⟩ := Prod.mk.inj both
  refine ⟨valid,modules _ List.mem_cons_self,flat,expanded,flatValid,entries,?_⟩
  obtain ⟨_,loaded,fits⟩ := expand_fits expanded
  cases (members_moduleFile _).symm.trans loaded
  rw [forall₂_iff_forall ((fits valid modules).imp fun _ _ => wired_iff)]
  decide +kernel

end Astrs.Manifests
