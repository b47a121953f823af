/-
Module expansion: every module-hosting node replaced by the nodes of its module.

A file is known by what reading and parsing it gives.  The depth that is left plays the
part of the length of the ancestor stack.
-/

import Astrs.Base.Effect
import Astrs.Manifests.Document

namespace Astrs.Manifests

open Astrs.Base

inductive Component where
  | rootDir
  | parentDir
  | normal (name : Text)
  deriving DecidableEq

abbrev Path := List Component

/-- The components of a path; empty and `.` ones do not count. -/
def components (path : Text) : Path := (if path.head? = some '/' then [.rootDir] else []) ++
    ((path.splitOn '/').filter fun part => part ≠ [] ∧ part ≠ ['.']).map fun part =>
      if part = ['.','.'] then .parentDir else .normal part

def join (base : Path) (path : Text) : Path :=
  if path.head? = some '/' then components path else base ++ components path

/-- Collapses `..` against the component before it, which never is above the root. -/
def normalizeOnto (path : Path) : Path → Path
  | [] => path
  | .parentDir :: rest =>
    match path.getLast? with
    | some (.normal _) => normalizeOnto path.dropLast rest
    | some .rootDir => normalizeOnto path rest
    | _ => normalizeOnto (path ++ [.parentDir]) rest
  | component :: rest => normalizeOnto (path ++ [component]) rest

def normalizePath (path : Path) : Path := normalizeOnto [] path

def resolveModulePath (baseDir : Path) (moduleField : Text) : Path :=
  normalizePath (join baseDir moduleField)

def parent (path : Path) : Option Path :=
  match path.getLast? with
  | none => none
  | some .rootDir => none
  | some _ => some path.dropLast

def rewriteReferenceNodeId (source : Text) (rename : Text → Option Text) : Text :=
  if (recognize source).isSome then source
  else
    match splitReference source with
    | none => source
    | some (nodeId,rest) =>
      match rename nodeId with
      | some renamed => renamed ++ '/' :: rest
      | none => source

/-- Where an error without a host was found. -/
inductive Location where
  | root
  | moduleManifest (path : Path)
  deriving DecidableEq

inductive LoadError where
  | io
  | parse
  deriving DecidableEq

inductive ExpandError where
  | duplicateNodeId (location : Location) (id : Text)
  | load (path : Path) (error : LoadError)
  | notAModule (path : Path)
  | cycle (chain : List Path)
  | depthExceeded (maxDepth : Nat)
  | unknownModuleInput (hostNode port : Text)
  | unknownModuleOutput (hostNode port : Text)
  | unsuppliedModuleInput (location : Location) (port : Text)
  | missingModuleOutputProducer (hostNode port : Text)
  | ambiguousModuleOutput (hostNode port : Text) (producers : List Text)
  deriving DecidableEq

/-- What reading a module file and parsing it gives. -/
abbrev Files := Path → Except LoadError Manifest

structure ExpandOptions where
  maxDepth : Nat

def ExpandOptions.default : ExpandOptions := ⟨32⟩

structure Boundary where
  inputs : OrderedMap Text Text
  inputTypes : OrderedMap Text Urn

structure ScopeInput where
  baseDir : Path
  ancestorEnv : Env
  boundary : Boundary
  location : Location

structure ScopeResult where
  nodes : List Node
  localIds : List Text
  typeRules : List TypeRule

def mergeEnv (base overrideLayer : Env) : Env :=
  overrideLayer.entries.foldl (fun merged binding => merged.insert binding.1 binding.2) base

abbrev OutputRewrites := OrderedMap Text Text

def rewritePlainSource (boundary : Boundary) (outputRewrites : OutputRewrites)
    (location : Location) (source : Text) : Except ExpandError (Text × Option Urn) :=
  if (recognize source).isSome then .ok (source,none)
  else
    match boundaryPort source with
    | some port =>
      match boundary.inputs.get port with
      | some value => .ok (value,boundary.inputTypes.get port)
      | none => .error (.unsuppliedModuleInput location port)
    | none => .ok ((outputRewrites.get source).getD source,none)

/-- Fills in the types that came with the boundary, where the node declares none. -/
def backfill (types : OrderedMap Text Urn) (hints : List (Text × Option Urn)) :
    OrderedMap Text Urn :=
  hints.foldl (fun filled hint =>
    match hint.2,filled.get hint.1 with
    | some type,none => filled.insert hint.1 type
    | _,_ => filled) types

def rewritePlainNode (boundary : Boundary) (outputRewrites : OutputRewrites) (location : Location)
    (node : Node) : Except ExpandError Node := do
  let rewritten ← node.inputs.values.mapM fun input =>
    rewritePlainSource boundary outputRewrites location input.source
  let record ← (node.record.getD []).mapM (rewritePlainSource boundary outputRewrites location)
  return { node with
    inputs := node.inputs.withValues
      (List.zipWith (fun input new => { input with source := new.1 }) node.inputs.values rewritten)
    inputTypes := backfill node.inputTypes
      ((node.inputs.withValues (rewritten.map Prod.snd)).entries)
    record := node.record.map fun _ => record.map Prod.fst }

def prefixChildNode (host : Text) (localIds : List Text) (node : Node) : Node :=
  let rename := fun id => if id ∈ localIds then some (host ++ '.' :: id) else none
  { node with
    id := host ++ '.' :: node.id
    inputs := node.inputs.mapWithKey fun _ input =>
      { input with source := rewriteReferenceNodeId input.source rename }
    record := node.record.map fun entries =>
      entries.map fun entry => rewriteReferenceNodeId entry rename }

def prefixChildNodes (host : Node) (child : ScopeResult) : List Node :=
  child.nodes.map (prefixChildNode host.id child.localIds)

/-- The other spelling of an exposed output. -/
def modSpelling (port : Text) : Text := moduleBoundaryNodeId ++ '/' :: port

def spellings (port : Text) (outputs : List Text) : List Text :=
  (if port ∈ outputs then [port] else []) ++
    if modSpelling port ∈ outputs then [modSpelling port] else []

def producers (port : Text) (nodes : List Node) : List (Text × Text) :=
  nodes.flatMap fun candidate =>
    (spellings port candidate.outputs).map fun spelling => (candidate.id,spelling)

def annotate (type : Option Urn) (producer spelling : Text) : List Node → List Node
  | [] => []
  | node :: rest =>
    if node.id = producer then
      match type, node.outputTypes.get spelling with
      | some urn,none =>
        { node with outputTypes := node.outputTypes.insert spelling urn } :: rest
      | _,_ => node :: rest
    else node :: annotate type producer spelling rest

def recordOutputRewrite (host : Node) (state : ScopeResult × OutputRewrites) (port : Text) :
    Except ExpandError (ScopeResult × OutputRewrites) :=
  match producers port state.1.nodes with
  | [] => .error (.missingModuleOutputProducer host.id port)
  | [(producer,spelling)] =>
    .ok ({ state.1 with
        nodes := annotate (host.outputTypes.get port) producer spelling state.1.nodes },
      state.2.insert (host.id ++ '/' :: port) (host.id ++ '.' :: producer ++ '/' :: spelling))
  | several => .error (.ambiguousModuleOutput host.id port (several.map Prod.fst))

def recordOutputRewrites (host : Node) (child : ScopeResult) (outputRewrites : OutputRewrites) :
    Except ExpandError (ScopeResult × OutputRewrites) :=
  host.outputs.foldlM (recordOutputRewrite host) (child,outputRewrites)

abbrev Expansion := List Path → Manifest → ScopeInput → Except ExpandError ScopeResult

def childBoundary (input : ScopeInput) (outputRewrites : OutputRewrites) (header : ModuleHeader)
    (host : Node) : Except ExpandError Boundary := do
  let resolved ← host.inputs.values.mapM fun value =>
    rewritePlainSource input.boundary outputRewrites input.location value.source
  let hinted := (host.inputs.withValues (resolved.map Prod.snd)).entries
  let declared := host.inputTypes.entries.filter fun binding => binding.1 ∈ header.inputs
  return {
    inputs := host.inputs.withValues (resolved.map Prod.fst)
    inputTypes := declared.foldl (fun types binding => types.insert binding.1 binding.2)
      (backfill OrderedMap.empty hinted) }

def checkPorts (host : Node) (header : ModuleHeader) : Except ExpandError Unit :=
  match (host.inputs.entries.map Prod.fst).find? (· ∉ header.inputs) with
  | some port => .error (.unknownModuleInput host.id port)
  | none =>
    match host.outputs.find? (· ∉ header.outputs) with
    | some port => .error (.unknownModuleOutput host.id port)
    | none => .ok ()

def loadModule (files : Files) (path : Path) : Except ExpandError (Manifest × ModuleHeader) :=
  match files path with
  | .error failure => .error (.load path failure)
  | .ok manifest =>
    match manifest.module with
    | none => .error (.notAModule path)
    | some header => .ok (manifest,header)

def expandModuleHost (files : Files) (options : ExpandOptions) (expand : Option Expansion)
    (stack : List Path) (input : ScopeInput) (outputRewrites : OutputRewrites) (host : Node)
    (moduleField : Text) : Except ExpandError ScopeResult :=
  let path := resolveModulePath input.baseDir moduleField
  if path ∈ stack then .error (.cycle (stack.dropWhile (· ≠ path) ++ [path]))
  else
    match expand with
    | none => .error (.depthExceeded options.maxDepth)
    | some expandChild => do
      let (manifest,header) ← loadModule files path
      checkPorts host header
      let boundary ← childBoundary input outputRewrites header host
      expandChild (stack ++ [path]) manifest {
        baseDir := (parent path).getD input.baseDir
        ancestorEnv := mergeEnv manifest.env input.ancestorEnv
        boundary := boundary
        location := .moduleManifest path }

/-- What the first pass has found so far: the rewrites of exposed outputs, the nodes of the
modules by position, and their type rules. -/
structure HostPass where
  outputRewrites : OutputRewrites
  modules : List (Option (List Node))
  typeRules : List TypeRule

def hostStep (files : Files) (options : ExpandOptions) (expand : Option Expansion)
    (stack : List Path) (input : ScopeInput) (pass : HostPass) (node : Node) :
    Except ExpandError HostPass :=
  match node.module with
  | none => .ok { pass with modules := pass.modules ++ [none] }
  | some moduleField => do
    let child ← expandModuleHost files options expand stack input pass.outputRewrites node
      moduleField
    let (annotated,outputRewrites) ← recordOutputRewrites node child pass.outputRewrites
    return {
      outputRewrites := outputRewrites
      modules := pass.modules ++ [some (prefixChildNodes node annotated)]
      typeRules := pass.typeRules ++ annotated.typeRules }

/-- The nodes that take the place of one node, given those of its module. -/
def batch (input : ScopeInput) (outputRewrites : OutputRewrites)
    (item : Node × Option (List Node)) : Except ExpandError (List Node) :=
  match item.2 with
  | some nodes => .ok nodes
  | none => do
    let node ← rewritePlainNode input.boundary outputRewrites input.location
      { item.1 with env := mergeEnv input.ancestorEnv item.1.env }
    return [node]

def insertId (location : Location) (ids : List Text) (node : Node) :
    Except ExpandError (List Text) :=
  if node.id ∈ ids then .error (.duplicateNodeId location node.id) else .ok (ids ++ [node.id])

/-- The two passes over a manifest and the assembly in its own order. -/
def expandNodes (files : Files) (options : ExpandOptions) (expand : Option Expansion) : Expansion :=
  fun stack manifest input => do
    let pass ← manifest.nodes.foldlM (hostStep files options expand stack input)
      { outputRewrites := OrderedMap.empty, modules := [], typeRules := manifest.typeRules }
    let batches ← (manifest.nodes.zip pass.modules).mapM (batch input pass.outputRewrites)
    let localIds ← batches.flatten.foldlM (insertId input.location) []
    return {
      nodes := batches.flatten
      localIds := localIds
      typeRules := pass.typeRules }

def expandScope (files : Files) (options : ExpandOptions) : Nat → Expansion
  | 0 => expandNodes files options none
  | depth + 1 => expandNodes files options (some (expandScope files options depth))

def dedupeTypeRules (rules : List TypeRule) : List TypeRule :=
  rules.foldl (fun kept rule => if rule ∈ kept then kept else kept ++ [rule]) []

def pruneRedundantEnv (rootEnv : Env) (node : Node) : Node :=
  { node with
    env := node.env.entries.foldl (fun env binding =>
      if rootEnv.get binding.1 = some binding.2 then env.remove binding.1 else env) node.env }

def expandWithOptions (manifest : Manifest) (baseDir : Path) (files : Files)
    (options : ExpandOptions) : Except ExpandError Manifest := do
  let result ← expandScope files options options.maxDepth [] manifest {
    baseDir := baseDir
    ancestorEnv := manifest.env
    boundary := { inputs := OrderedMap.empty, inputTypes := OrderedMap.empty }
    location := .root }
  return { manifest with
    nodes := result.nodes.map (pruneRedundantEnv manifest.env)
    typeRules := dedupeTypeRules result.typeRules
    module := none }

def expand (manifest : Manifest) (baseDir : Path) (files : Files) : Except ExpandError Manifest :=
  expandWithOptions manifest baseDir files ExpandOptions.default

end Astrs.Manifests
