/-
Manifests: nodes, their wiring, and the structural checks on it.

Only the fields that wiring and module expansion read are kept, and of the checks of
`validate` those on node ids, inputs and record entries.
-/

import Mathlib.Data.Char
import Mathlib.Data.List.Lex
import Astrs.Base.Ordered

namespace Astrs.Manifests

open Astrs.Base

abbrev Text := List Char

instance : LawfulBEq Text := inferInstanceAs (LawfulBEq (List Char))

def moduleBoundaryNodeId : Text := ['_','m','o','d']

def splitOnce : Text → Option (Text × Text)
  | [] => none
  | letter :: rest =>
    if letter = '/' then some ([],rest)
    else (splitOnce rest).map fun parts => (letter :: parts.1,parts.2)

def splitReference (source : Text) : Option (Text × Text) :=
  match splitOnce source with
  | none => none
  | some (nodeId,rest) => if nodeId = [] ∨ rest = [] then none else some (nodeId,rest)

inductive VirtualSource where
  | timerMillis (period : Nat)
  | timerSecs (period : Nat)
  | timerHz (rate : Nat)
  | logs (level node : Option Text)
  | status
  deriving DecidableEq

inductive VirtualSourceError where
  | unknownFamily
  | invalidTimer
  | invalidLogs
  | invalidStatus
  deriving DecidableEq

/-- The decimal number a text spells, as far as it fits 64 bits. -/
def parseNumber (text : Text) : Option Nat :=
  let digits := match text with
    | '+' :: rest => rest
    | other => other
  if digits = [] ∨ digits.all Char.isDigit = false then none
  else
    let value := digits.foldl (fun total digit => total * 10 + (digit.toNat - 48)) 0
    if value < 18446744073709551616 then some value else none

def recognizeTimer : List Text → Except VirtualSourceError VirtualSource
  | [kind,number] =>
    match parseNumber number with
    | none => .error .invalidTimer
    | some count =>
      if count = 0 then .error .invalidTimer
      else if kind = ['m','i','l','l','i','s'] then .ok (.timerMillis count)
      else if kind = ['s','e','c','s'] then .ok (.timerSecs count)
      else if kind = ['h','z'] then .ok (.timerHz count)
      else .error .invalidTimer
  | _ => .error .invalidTimer

def logLevels : List Text := [['t','r','a','c','e'],['d','e','b','u','g'],['i','n','f','o'],
    ['w','a','r','n'],['e','r','r','o','r']]

def recognizeLogs (segments : List Text) : Except VirtualSourceError VirtualSource :=
  if 2 < segments.length then .error .invalidLogs
  else if segments.head?.all (logLevels.contains ·) then .ok (.logs segments.head? segments.tail.head?)
  else .error .invalidLogs

def recognizeStatus (segments : List Text) : Except VirtualSourceError VirtualSource :=
  if segments = [] then .ok .status else .error .invalidStatus

def recognizeRest (rest : Text) : Except VirtualSourceError VirtualSource :=
  match rest.splitOn '/' with
  | [] => .error .unknownFamily
  | family :: segments =>
    if family = ['t','i','m','e','r'] then recognizeTimer segments
    else if family = ['l','o','g','s'] then recognizeLogs segments
    else if family = ['s','t','a','t','u','s'] then recognizeStatus segments
    else .error .unknownFamily

/-- What a text that starts with `astrs/` says; `none` for an ordinary reference. -/
def recognize (source : Text) : Option (Except VirtualSourceError VirtualSource) :=
  match source with
  | 'a' :: 's' :: 't' :: 'r' :: 's' :: '/' :: rest => some (recognizeRest rest)
  | _ => none

def boundaryPort (source : Text) : Option Text :=
  match source with
  | '_' :: 'm' :: 'o' :: 'd' :: '/' :: port => some port
  | _ => none

inductive EnvValue where
  | string (value : Text)
  | bool (value : Bool)
  | int (value : Int)
  | float (bits : Nat)
  deriving DecidableEq

abbrev Env := OrderedMap Text EnvValue

abbrev Urn := Text

structure TypeRule where
  source : Urn
  target : Urn
  deriving DecidableEq

structure Input where
  source : Text
  queueSize : Nat
  deriving DecidableEq

structure Node where
  id : Text
  module : Option Text
  record : Option (List Text)
  env : Env
  inputs : OrderedMap Text Input
  outputs : List Text
  inputTypes : OrderedMap Text Urn
  outputTypes : OrderedMap Text Urn

structure ModuleHeader where
  name : Text
  inputs : List Text
  outputs : List Text

structure Manifest where
  nodes : List Node
  typeRules : List TypeRule
  env : Env
  module : Option ModuleHeader

def Node.entries (node : Node) : List Text :=
  node.inputs.values.map Input.source ++ node.record.getD []

inductive UnresolvedReferenceReason where
  | malformed
  | unknownNode (id : Text)
  | unknownOutput (node output : Text)
  | virtualSource (error : VirtualSourceError)
  | unknownModuleInput (port : Text) (declared : List Text)
  deriving DecidableEq

inductive ValidationErrorKind where
  | invalidIdCharset (id : Text)
  | duplicateNodeId (id : Text)
  | queueSizeTooSmall (found : Nat)
  | unresolvedReference (value : Text) (reason : UnresolvedReferenceReason)
  deriving DecidableEq

/-- The part of a node a document path leads to. -/
inductive Place where
  | id
  | input (name : Text)
  | record (index : Nat)
  deriving DecidableEq

structure ValidationError where
  node : Nat
  place : Place
  kind : ValidationErrorKind
  deriving DecidableEq

def isValidIdCharset (id : Text) : Bool := id ≠ [] && id.all fun letter =>
    letter.isAlphanum || letter = '_' || letter = '.' || letter = '-'

def checkNodeId (index : Nat) (earlier : List Node) (node : Node) : List ValidationError :=
  (if isValidIdCharset node.id then [] else [⟨index,.id,.invalidIdCharset node.id⟩]) ++
    if node.id ∈ earlier.map Node.id then [⟨index,.id,.duplicateNodeId node.id⟩] else []

def checkNodeIds : List Node → List Node → List ValidationError
  | _,[] => []
  | earlier,node :: rest =>
    checkNodeId earlier.length earlier node ++ checkNodeIds (earlier ++ [node]) rest

namespace Manifest

variable (manifest : Manifest)

def declaredOutputs (id : Text) : Option (List Text) :=
  (manifest.nodes.reverse.find? fun node => node.id = id).map Node.outputs

def resolve (value : Text) : Except UnresolvedReferenceReason Unit :=
  match recognize value with
  | some (.ok _) => .ok ()
  | some (.error failure) => .error (.virtualSource failure)
  | none =>
    match splitReference value with
    | none => .error .malformed
    | some (nodeId,output) =>
      if nodeId = moduleBoundaryNodeId then
        match manifest.module with
        | none => .error (.unknownNode nodeId)
        | some header =>
          if output ∈ header.inputs then .ok ()
          else .error (.unknownModuleInput output header.inputs)
      else
        match manifest.declaredOutputs nodeId with
        | none => .error (.unknownNode nodeId)
        | some outputs =>
          if output ∈ outputs then .ok () else .error (.unknownOutput nodeId output)

def checkReference (index : Nat) (place : Place) (value : Text) : List ValidationError :=
  match manifest.resolve value with
  | .ok () => []
  | .error reason => [⟨index,place,.unresolvedReference value reason⟩]

def checkInput (index : Nat) (binding : Text × Input) : List ValidationError :=
  (if binding.2.queueSize < 1 then
    [⟨index,.input binding.1,.queueSizeTooSmall binding.2.queueSize⟩] else []) ++
    manifest.checkReference index (.input binding.1) binding.2.source

def checkInputs : List ValidationError := manifest.nodes.zipIdx.flatMap fun (node,index) =>
    node.inputs.entries.flatMap (manifest.checkInput index)

def checkRecord : List ValidationError := manifest.nodes.zipIdx.flatMap fun (node,index) =>
    (node.record.getD []).zipIdx.flatMap fun (value,position) =>
      manifest.checkReference index (.record position) value

/-- The violations found; none when the manifest is accepted. -/
def validate : List ValidationError :=
  checkNodeIds [] manifest.nodes ++ manifest.checkInputs ++ manifest.checkRecord

end Manifest

end Astrs.Manifests
