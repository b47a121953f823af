/-
Module expansion and the wiring.

A flattened reference names the producer its original means, exactly when the name passed
down to it is neither taken for a name of a module it was passed into nor that of a module
still to be expanded.
-/

import Astrs.Manifests.Shape

namespace Astrs.Manifests

open Astrs.Base List

/-! ### References that resolve -/

variable {scope past inner : List Member} {item : Member} {manifest : Manifest}
  {source port spelling : Text} {frames : List (Frame Char)}

theorem member_of_mem
    (nodup : (scope.map fun other => other.node.id).Nodup) (there : item ∈ scope) :
    member scope item.node.id = some item := by
  unfold member
  induction scope with
  | nil => exact absurd there not_mem_nil
  | cons first rest ih =>
    rw [map_cons,nodup_cons] at nodup
    rcases mem_cons.mp there with rfl | later
    · rw [List.find?_cons_of_pos (by simp)]
    · rw [List.find?_cons_of_neg,ih nodup.2 later]
      rw [decide_eq_true_eq]
      intro same
      exact nodup.1 (same ▸ mem_map_of_mem later)

theorem member_append (past : List Member) (item : Member) (id : Text) :
    member (past ++ [item]) id =
      (member past id).or (if item.node.id = id then some item else none) := by
  unfold member
  rw [List.find?_append]
  congr 1
  by_cases same : item.node.id = id
  · rw [if_pos same,List.find?_cons_of_pos (by simpa using same)]
  · rw [if_neg same,List.find?_cons_of_neg (by simpa using same)]
    rfl

/-- The kinds of reference that a valid manifest holds. -/
theorem resolve_cases
    (nodes : scope.map Member.node = manifest.nodes) (resolved : manifest.resolve source = .ok ()) :
    (recognize source).isSome = true ∨ (¬ (recognize source).isSome = true ∧
      ((∃ port, boundaryPort source = some port) ∨
        ∃ id output item, source = id ++ '/' :: output ∧ boundaryPort source = none ∧
          splitReference source = some (id,output) ∧ IsName id ∧ output ≠ [] ∧ id ≠ virtualId ∧
          item ∈ scope ∧ item.node.id = id ∧ output ∈ item.node.outputs)) := by
  unfold Manifest.resolve at resolved
  split at resolved
  · rename_i known
    left
    rw [known]
    rfl
  · cases resolved
  · rename_i ordinary
    right
    refine ⟨by rw [ordinary]; decide,?_⟩
    split at resolved
    · cases resolved
    · rename_i id output split
      obtain ⟨rfl,isName,filled⟩ := splitReference_eq_some split
      split at resolved
      · rename_i boundary
        left
        rw [boundary]
        exact ⟨output,rfl⟩
      · rename_i other
        right
        split at resolved
        · cases resolved
        · rename_i outputs declared
          split at resolved
          · rename_i offered
            obtain ⟨_,found,rfl⟩ := Option.map_eq_some_iff.mp declared
            have there := mem_reverse.mp (mem_of_find?_eq_some found)
            have same := List.find?_some found
            rw [← nodes] at there
            obtain ⟨item,held,rfl⟩ := mem_map.mp there
            refine ⟨id,output,item,rfl,boundaryPort_reference output isName.plain other,split,isName,
              filled,?_,held,by simpa using same,offered⟩
            rintro rfl
            cases ordinary
          · cases resolved

theorem mem_of_producer {item : Inner} (found : producer inner port = some (item,spelling)) :
    item ∈ innerNodes inner ∧ spelling ∈ spellings port item.node.outputs := by
  unfold producer at found
  split at found
  · rename_i only sole
    cases found
    have there : (item,spelling) ∈ candidates inner port := sole ▸ mem_singleton.mpr rfl
    obtain ⟨_,held,spelled⟩ := mem_flatMap.mp there
    obtain ⟨_,isSpelling,same⟩ := mem_map.mp spelled
    cases same
    exact ⟨held,isSpelling⟩
  · cases found

theorem spelling_ne_nil {outputs : List Text} (filled : port ≠ [])
    (spelled : spelling ∈ spellings port outputs) : spelling ≠ [] := by
  rcases mem_append.mp spelled with bare | other
  · split at bare
    · rw [mem_singleton.mp bare]
      exact filled
    · exact absurd bare not_mem_nil
  · split at other
    · rw [mem_singleton.mp other]
      exact fun empty => nomatch empty
    · exact absurd other not_mem_nil

def Member.recorded (output : Text) : Member → Option Text
  | .plain _ => none
  | .hosted host _ inner => if output ∈ host.outputs then exposedAs inner host.id output else none

/-- The flattened reference to an output of a module among the members. -/
def recordedOutput (earlier : List Member) (id output : Text) : Option Text :=
  (member earlier id).bind (Member.recorded output)

def Recorded (earlier : List Member) (rewrites : OutputRewrites) : Prop :=
  ∀ id output, '/' ∉ id → rewrites.get (id ++ '/' :: output) = recordedOutput earlier id output

theorem recordedOutput_append (fresh : member past item.node.id = none) (id output : Text) :
    recordedOutput (past ++ [item]) id output = (recordedOutput past id output).or
      (if item.node.id = id then item.recorded output else none) := by
  unfold recordedOutput
  rw [member_append]
  by_cases same : item.node.id = id
  · subst same
    rw [fresh,if_pos rfl,if_pos rfl]
    rfl
  · rw [if_neg same,if_neg same,Option.or_none,Option.or_none]

theorem Recorded.plain {rewrites : OutputRewrites} {node : Node}
    (noted : Recorded past rewrites) (fresh : member past (Member.plain node).node.id = none) :
    Recorded (past ++ [.plain node]) rewrites := by
  intro id output slashless
  rw [noted id output slashless,recordedOutput_append fresh,Member.recorded,ite_self,Option.or_none]

theorem Recorded.hosted {host : Node}
    {child annotated : ScopeResult} {rewrites after : OutputRewrites}
    (noted : Recorded past rewrites)
    (fresh : member past (Member.hosted host manifest inner).node.id = none)
    (exposed : Exposed host host.outputs inner (child,rewrites) (annotated,after)) :
    Recorded (past ++ [.hosted host manifest inner]) after := by
  intro id output slashless
  rw [exposed.rewrites id output slashless,noted id output slashless,recordedOutput_append fresh]
  by_cases same : id = host.id
  · subst same
    have unrecorded : recordedOutput past host.id output = none := by
      unfold recordedOutput
      exact congrArg (Option.bind · _) fresh
    simp only [unrecorded,true_and,Member.node,Member.recorded,if_true,Option.none_or]
  · rw [if_neg fun both => same both.1,if_neg fun equal => same equal.symm,Option.or_none]

theorem Recorded.start : Recorded [] OrderedMap.empty := by
  intro _ _ _
  rfl

/-! ### The entries of a scope -/

def boundaryMeaning : List Level → Text → Option Target
  | [],_ => none
  | level :: outer,port =>
    (level.host.inputs.get port).bind fun input => meaning outer level.scope input.source

theorem meaning_eq (levels : List Level) (scope : List Member) (source : Text) :
    meaning levels scope source =
      meaningIn scope (hostsOf levels) (boundaryMeaning levels) source := by
  cases levels <;> rfl

/-- Every text of the boundary is carried in as it should be. -/
def CarriedIn (boundary : Boundary) (levels : List Level) (scope : List Member) : Prop :=
  ∀ port text, boundary.inputs.get port = some text →
    ∃ target, boundaryMeaning levels port = some target ∧
      Arrived (framesOf levels scope) (arrives levels scope port) text target

/-- An instance with a valid manifest, whose boundary texts are carried in as they should. -/
structure Setting (levels : List Level) (scope : List Member) (manifest : Manifest)
    (boundary : Boundary) : Prop where
  leads : Leads levels scope
  nodes : scope.map Member.node = manifest.nodes
  valid : ValidNodes manifest
  exposes : ∀ host manifest inner, .hosted host manifest inner ∈ scope →
    (∀ name ∈ innerNames inner, '/' ∉ name) ∧
      ∀ port ∈ host.outputs, (producer inner port).isSome = true
  ports : CarriedIn boundary levels scope

theorem boundaryPort_ordinary (found : boundaryPort source = some port) :
    ¬ (recognize source).isSome = true := by
  rw [boundaryPort_eq_some found,recognize_reference port (by decide) (by decide)]
  decide

variable {levels : List Level} {boundary : Boundary} {rewrites : OutputRewrites}

namespace Setting

section

variable (setting : Setting levels scope manifest boundary)
include setting

theorem member_eq (there : item ∈ scope) : member scope item.node.id = some item := by
  apply member_of_mem _ there
  have nodup := setting.valid.distinct
  rw [← setting.nodes,map_map] at nodup
  exact nodup

theorem resolves (there : item ∈ scope) :
    ∀ source ∈ item.node.entries, manifest.resolve source = .ok () := by
  apply setting.valid.resolves item.node
  rw [← setting.nodes]
  exact mem_map_of_mem there

section

variable (noted : Recorded past rewrites)
  (part : ∀ id item, member past id = some item → member scope id = some item)
include noted part

theorem sibling {id output : Text} (isName : IsName id) (filled : output ≠ [])
    (ordinary : id ≠ virtualId) (there : item ∈ scope) (same : item.node.id = id)
    (offered : output ∈ item.node.outputs) :
    ∃ goal, siblingOutput scope (hostsOf levels) id output = some goal ∧
      Arrived (framesOf levels scope) (sent past scope id output)
        ((rewrites.get (id ++ '/' :: output)).getD (id ++ '/' :: output)) goal := by
  have found : member scope id = some item := same ▸ setting.member_eq there
  have known : ∀ other, member past id = some other → item = other := fun _ held =>
    Option.some.inj (found.symm.trans (part _ _ held))
  rw [noted id output isName.plain]
  unfold siblingOutput sent recordedOutput
  rw [found]
  cases item with
  | plain node =>
    refine ⟨_,rfl,?_⟩
    have unrecorded : (member past id).bind (Member.recorded output) = none := by
      cases held : member past id with
      | none => rfl
      | some =>
        cases known _ held
        rfl
    rw [unrecorded]
    exact .carried (carried_own setting.leads (same ▸ mem_innerNames there (mem_singleton.mpr rfl)) isName
      ordinary filled rfl)
  | hosted host childManifest inner =>
    obtain ⟨plain,produced⟩ := setting.exposes host childManifest inner there
    obtain ⟨⟨source,spelling⟩,sole⟩ := Option.isSome_iff_exists.mp (produced output offered)
    obtain ⟨isInner,spelled⟩ := mem_of_producer sole
    have named : source.name ∈ innerNames inner := mem_map_of_mem isInner
    have render : (Target.output (hostsOf levels ++ id :: source.hosts) source.node.id
        spelling).render =
          flatId (hostsOf levels) (id ++ '.' :: source.name) ++ '/' :: spelling := by
      change flatId (hostsOf levels ++ id :: source.hosts) source.node.id ++ _ = _
      unfold flatId
      rw [Scopes.qualify_append]
      rfl
    dsimp only
    rw [sole,Option.map_some,Option.map_some]
    refine ⟨_,rfl,?_⟩
    cases held : member past id with
    | none => exact .carried (carried_late setting.leads isName ordinary filled (plain _ named) render)
    | some =>
      cases known _ held
      cases same
      rw [Option.bind_some,Member.recorded,if_pos (show output ∈ host.outputs from offered),exposedAs,
        sole]
      exact .carried (carried_own setting.leads (mem_innerNames_of_hosted there named)
        (isName_under isName.plain (plain _ named)) (under_ne_virtualId _ _)
        (spelling_ne_nil filled spelled) render)

theorem entry {location : Location} {text : Text} {hint : Option Urn}
    (resolved : manifest.resolve source = .ok ())
    (rewritten : rewritePlainSource boundary rewrites location source = .ok (text,hint)) :
    ∃ goal, meaning levels scope source = some goal ∧
      Arrived (framesOf levels scope) (sentBy (arrives levels scope) past scope source) text
        goal := by
  rw [meaning_eq]
  unfold meaningIn sentBy
  unfold rewritePlainSource at rewritten
  rcases resolve_cases setting.nodes resolved with
    known | ⟨unknown,⟨port,found⟩ |
      ⟨id,output,item,rfl,inner,split,isName,filled,ordinary,there,same,offered⟩⟩
  · rw [if_pos known] at rewritten
    cases rewritten
    rw [if_pos known,if_pos known]
    exact ⟨_,rfl,.virtual known⟩
  · rw [if_neg unknown,found] at rewritten
    rw [if_neg unknown,if_neg unknown,found]
    dsimp only at rewritten ⊢
    split at rewritten
    · rename_i value held
      cases rewritten
      exact setting.ports port text held
    · cases rewritten
  · rw [if_neg unknown,inner] at rewritten
    cases rewritten
    rw [if_neg unknown,if_neg unknown,inner,split]
    exact setting.sibling noted part isName filled ordinary there same offered

end

/-- With all members recorded, only what comes through a boundary port can be captured. -/
theorem kept_iff {node : Node} (resolved : manifest.resolve source = .ok ()) :
    (∀ item, sentBy (arrives levels scope) scope scope source = some item → item.kept = true) ↔
      Uncaptured ⟨scope,levels,node⟩ source := by
  rw [uncaptured_iff]
  unfold sentBy
  rcases resolve_cases setting.nodes resolved with
    known | ⟨unknown,⟨port,found⟩ | ⟨id,output,item,-,inner,split,-,-,-,there,same,-⟩⟩
  · rw [if_pos known]
    constructor
    · exact fun _ _ found => absurd known (boundaryPort_ordinary found)
    · exact nofun
  · rw [if_neg unknown,found]
    constructor
    · intro kept _ same
      cases same
      exact kept
    · exact fun kept => kept port rfl
  · rw [if_neg unknown,inner,split]
    constructor
    · exact nofun
    · intro _ passed sends
      have found : member scope id = some item := same ▸ setting.member_eq there
      change sent scope scope id output = some passed at sends
      unfold sent at sends
      rw [found] at sends
      cases item with
      | plain =>
        cases sends
        rfl
      | hosted =>
        obtain ⟨_,-,rfl⟩ := Option.map_eq_some_iff.mp sends
        rfl

end

end Setting

/-! ### Flattened nodes and their leaves -/

/-- A text in a flattened scope stands for an entry of a leaf, and comes out right exactly when
the entry was not captured. -/
def Reads (frames : List (Frame Char)) (leaf : Leaf) (text source : Text) : Prop :=
  ∃ target, meaning leaf.levels leaf.scope source = some target ∧
    (liftSource frames text = target.render ↔ Uncaptured leaf source)

structure Fits (frames : List (Frame Char)) (node : Node) (leaf : Leaf) : Prop where
  id : flatId (Scopes.hosts frames) node.id = leaf.name
  outputs : node.outputs = leaf.node.outputs
  ports : node.inputs.entries.map Prod.fst = leaf.node.inputs.entries.map Prod.fst
  entries : List.Forall₂ (Reads frames leaf) node.entries leaf.node.entries

theorem Fits.bare_iff (node : Node) (leaf : Leaf) : Fits frames node.bare leaf ↔ Fits frames node leaf :=
  ⟨fun fit => { fit with },fun fit => { fit with }⟩

theorem entries_prefixChildNode (frame : Frame Char) (node : Node) :
    (prefixChildNode frame.host frame.names node).entries =
      node.entries.map (raiseSource frame) := by
  unfold Node.entries prefixChildNode OrderedMap.values OrderedMap.mapWithKey
  rw [map_append,map_map,map_map,map_map,map_map]
  cases node.record <;> rfl

/-- Leaving a scope puts its host in front, and carries the references out of it. -/
theorem Fits.leave {frame : Frame Char} {node : Node} {leaf : Leaf}
    (fits : Fits (frame :: frames) node leaf) :
    Fits frames (prefixChildNode frame.host frame.names node) leaf where
  id := by
    rw [← fits.id]
    unfold flatId
    rw [Scopes.qualify_hosts_cons]
    rfl
  outputs := fits.outputs
  ports := by
    rw [← fits.ports]
    change (List.map _ (List.map _ _)) = _
    rw [map_map]
    rfl
  entries := by
    rw [entries_prefixChildNode,List.forall₂_map_left_iff]
    exact fits.entries

theorem Setting.fits (setting : Setting levels scope manifest boundary)
    (noted : Recorded scope rewrites) {location : Location} {node after : Node} {env : Env}
    (there : .plain node ∈ scope)
    (rewritten : rewritePlainNode boundary rewrites location { node with env := env } = .ok after) :
    Fits (framesOf levels scope) after ⟨scope,levels,node⟩ := by
  obtain ⟨id,outputs,ports,entries⟩ := rewritePlainNode_ok rewritten
  refine ⟨?_,outputs,ports,?_⟩
  · rw [hosts_framesOf,id]
    rfl
  · have both := (List.forall₂_and_left _ _).mpr ⟨setting.resolves there,entries⟩
    refine List.Forall₂.flip (both.imp ?_)
    rintro source text ⟨resolves,_,rewrote⟩
    obtain ⟨goal,means,arrived⟩ := setting.entry noted (fun _ _ found => found) resolves rewrote
    refine ⟨goal,means,?_⟩
    rw [arrived.right_iff (plainHosts_framesOf setting.leads)]
    exact setting.kept_iff resolves

theorem Setting.childPorts {input : ScopeInput} {host : Node}
    {childManifest : Manifest} {header : ModuleHeader}
    (setting : Setting levels scope manifest input.boundary) (noted : Recorded past rewrites)
    (part : ∀ id item, member past id = some item → member scope id = some item)
    (there : .hosted host childManifest inner ∈ scope)
    (leads : Leads (⟨host,past,scope⟩ :: levels) inner)
    (bounded : childBoundary input rewrites header host = .ok boundary) :
    CarriedIn boundary (⟨host,past,scope⟩ :: levels) inner := by
  intro port _ supplied
  obtain ⟨resolved,mapped,done⟩ := bind_ok bounded
  cases done
  have pairs : List.Forall₂ (fun (value : Input) (new : Text) => ∃ hint,
      rewritePlainSource input.boundary rewrites input.location value.source = .ok (new,hint))
      host.inputs.values (resolved.map Prod.fst) := by
    rw [List.forall₂_map_right_iff]
    exact (mapM_ok mapped).imp fun _ _ rewrote => ⟨_,rewrote⟩
  have looked := OrderedMap.get_withValues pairs port
  rw [supplied] at looked
  cases written : host.inputs.get port with
  | none =>
    rw [written] at looked
    cases looked
  | some value =>
    rw [written] at looked
    cases looked with
    | some rewrote =>
      obtain ⟨_,rewrote⟩ := rewrote
      have among : value ∈ host.inputs.values :=
        mem_map.mpr ⟨_,OrderedMap.get_eq_some_iff.mp written,rfl⟩
      have resolves := setting.resolves there value.source
        (mem_append_left _ (mem_map_of_mem among))
      obtain ⟨goal,means,arrived⟩ := setting.entry noted part resolves rewrote
      refine ⟨goal,?_,?_⟩
      · change (host.inputs.get port).bind _ = some goal
        rw [written]
        exact means
      · have entered := arrived.enter (nested_framesOf leads) leads.2.1
        unfold arrives
        rw [written]
        exact entered

section

variable {input : ScopeInput} {rest : List Member}

theorem member_part (whole : scope = past ++ rest)
    (id : Text) (item : Member) (found : member past id = some item) :
    member scope id = some item := by
  unfold member at found ⊢
  rw [whole,List.find?_append,found]
  rfl

theorem member_fresh (whole : scope = past ++ item :: rest)
    (nodup : (scope.map fun other => other.node.id).Nodup) :
    member past item.node.id = none := by
  unfold member
  rw [List.find?_eq_none]
  intro other there same
  rw [whole,map_append,map_cons] at nodup
  have apart := (nodup_append.mp nodup).2.2 other.node.id (mem_map_of_mem there)
    item.node.id mem_cons_self
  exact apart (by simpa using same)

/-- A valid document that is expanded has the shape of its scope and fits its leaves. -/
def Meets (manifest : Manifest) (scope : List Member) (input : ScopeInput) (result : ScopeResult) :
    Prop :=
  manifest.validate = [] → (∀ item ∈ moduleManifests scope, item.validate = []) →
    Shape result scope ∧ ∀ levels, Leads levels scope → CarriedIn input.boundary levels scope →
      List.Forall₂ (Fits (framesOf levels scope)) result.nodes (leavesFrom scope levels [] scope)

theorem fits_of_trace {after final : OutputRewrites} {nodes : List Node}
    {batches : List (Option (List Node))} {lists : List (List Node)}
    (trace : HostTrace Meets input rewrites nodes rest after batches)
    (named : ∀ node ∈ nodes, '/' ∉ node.id)
    (valid : ∀ manifest ∈ moduleManifests rest, manifest.validate = [])
    (whole : scope = past ++ rest) (nodup : (scope.map fun other => other.node.id).Nodup)
    (noted : Recorded past rewrites) (setting : Setting levels scope manifest input.boundary)
    (made : List.Forall₂ (fun item list => batch input final item = .ok list) (nodes.zip batches)
      lists) :
    Recorded scope after ∧ (Recorded scope final →
      List.Forall₂ (Fits (framesOf levels scope)) lists.flatten
        (leavesFrom scope levels past rest)) := by
  induction trace generalizing past lists with
  | nil =>
    cases made
    rw [whole,append_nil]
    exact ⟨noted,fun _ => .nil⟩
  | @plain node nodes rest rewrites _ batches _ ih =>
    cases made with
    | @cons _ list _ lists here others =>
      obtain ⟨_,makes,done⟩ := bind_ok here
      cases done
      have there : .plain node ∈ scope := by
        rw [whole]
        exact mem_append_right _ mem_cons_self
      obtain ⟨recorded,fits⟩ := ih (fun item later => named item (mem_cons_of_mem _ later)) valid
        (by rw [whole,append_assoc]; rfl) (noted.plain (member_fresh whole nodup)) others
      exact ⟨recorded,fun all => .cons (setting.fits all there makes) (fits all)⟩
  | @hosted host childManifest inner header childInput child annotated nodes rest rewrites recording
      _ batches met bounded exposed _ ih =>
      obtain ⟨shape,fitting⟩ := met (valid childManifest mem_cons_self)
        fun item there => valid item (mem_cons_of_mem _ (mem_append_left _ there))
      have slashless := named host mem_cons_self
      have exposing := recordOutputRewrites_exposed slashless host.outputs shape.nodes exposed
      have there : .hosted host childManifest inner ∈ scope := by
        rw [whole]
        exact mem_append_right _ mem_cons_self
      have leads : Leads (⟨host,past,scope⟩ :: levels) inner :=
        ⟨⟨childManifest,there⟩,slashless,setting.leads⟩
      have inside := fitting (⟨host,past,scope⟩ :: levels) leads
        (setting.childPorts noted (member_part whole) there leads bounded)
      have grown : Recorded (past ++ [.hosted host childManifest inner]) recording :=
        noted.hosted (member_fresh whole nodup) exposing
      cases made with
      | @cons _ list _ lists here others =>
        cases here
        have names : annotated.localIds = innerNames inner := exposing.ids.trans shape.ids
        obtain ⟨recorded,fits⟩ := ih (fun item later => named item (mem_cons_of_mem _ later))
          (fun item held => valid item (mem_append_right _ held))
          (by rw [whole,append_assoc]; rfl) grown others
        refine ⟨recorded,fun all => rel_append ?_ (fits all)⟩
        unfold prefixChildNodes
        rw [List.forall₂_map_left_iff,names]
        exact (forall₂_of_bare Fits.bare_iff inside exposing.nodes).imp fun _ _ fit => fit.leave

end

end Astrs.Manifests
