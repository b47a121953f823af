/-
The meaning of references before modules are dissolved.

A reference is resolved in the scope it is written in; a boundary port is what the host's
input means in the scope around, and an exposed output is the one node inside the module
that produces it.
-/

import Astrs.Base.Scopes
import Astrs.Manifests.Expand

namespace Astrs.Manifests

open Astrs.Base

inductive Member where
  | plain (node : Node)
  | hosted (host : Node) (manifest : Manifest) (members : List Member)

def Member.node : Member → Node
  | .plain node => node
  | .hosted host _ _ => host

def loadMember (files : Files) (baseDir : Path) (load : Option (Path → Manifest → Option (List Member)))
    (node : Node) : Option Member :=
  match node.module with
  | none => some (.plain node)
  | some moduleField =>
    match load, files (resolveModulePath baseDir moduleField) with
    | some loadChild,.ok manifest =>
      (loadChild ((parent (resolveModulePath baseDir moduleField)).getD baseDir) manifest).map
        (.hosted node manifest)
    | _,_ => none

/-- The tree of a manifest whose modules nest no deeper than `depth`. -/
def members (files : Files) : Nat → Path → Manifest → Option (List Member)
  | 0,baseDir,manifest => manifest.nodes.mapM (loadMember files baseDir none)
  | depth + 1,baseDir,manifest =>
    manifest.nodes.mapM (loadMember files baseDir (some (members files depth)))

mutual

def Member.manifests : Member → List Manifest
  | .plain _ => []
  | .hosted _ manifest inner => manifest :: moduleManifests inner
  termination_by structural member => member

def moduleManifests : List Member → List Manifest
  | [] => []
  | member :: rest => member.manifests ++ moduleManifests rest
  termination_by structural members => members

end

/-- A node inside a scope: the hosts on the way to it, the outermost first, and the node. -/
structure Inner where
  hosts : List Text
  node : Node

/-- The name of a node under the hosts on the way to it. -/
def flatId (hosts : List Text) (id : Text) : Text := Scopes.qualify '.' hosts id

def Inner.name (inner : Inner) : Text := flatId inner.hosts inner.node.id

/-- A node of a module seen from the scope of the host. -/
def Inner.under (host : Text) (inner : Inner) : Inner := ⟨host :: inner.hosts,inner.node⟩

mutual

def Member.nodes : Member → List Inner
  | .plain node => [⟨[],node⟩]
  | .hosted host _ inner => (innerNodes inner).map (Inner.under host.id)
  termination_by structural member => member

/-- The nodes inside a scope, those of its modules included. -/
def innerNodes : List Member → List Inner
  | [] => []
  | member :: rest => member.nodes ++ innerNodes rest
  termination_by structural members => members

end

variable (scope : List Member)

def innerNames : List Text := (innerNodes scope).map Inner.name

def candidates (port : Text) : List (Inner × Text) := (innerNodes scope).flatMap fun item =>
    (spellings port item.node.outputs).map fun spelling => (item,spelling)

/-- The one node inside a module that produces a port. -/
def producer (port : Text) : Option (Inner × Text) :=
  match candidates scope port with
  | [only] => some only
  | _ => none

/-- A step from a scope into the module of one of its hosts: the host, the members declared
before it, and the scope. -/
structure Level where
  host : Node
  earlier : List Member
  scope : List Member

/-- The hosts on the way to an instance, the outermost first. -/
def hostsOf (levels : List Level) : List Text := (levels.map fun level => level.host.id).reverse

/-- A node that hosts no module, with the members of the module instance it is in and the
steps that lead there, the last one first. -/
structure Leaf where
  scope : List Member
  levels : List Level
  node : Node

def Leaf.name (leaf : Leaf) : Text := flatId (hostsOf leaf.levels) leaf.node.id

mutual

def Member.leaves (scope : List Member) (levels : List Level) (earlier : List Member) :
    Member → List Leaf
  | .plain node => [⟨scope,levels,node⟩]
  | .hosted host _ inner => leavesFrom inner (⟨host,earlier,scope⟩ :: levels) [] inner
  termination_by structural member => member

def leavesFrom (scope : List Member) (levels : List Level) (earlier : List Member) :
    List Member → List Leaf
  | [] => []
  | member :: rest =>
    member.leaves scope levels earlier ++ leavesFrom scope levels (earlier ++ [member]) rest
  termination_by structural members => members

end

def leaves : List Leaf := leavesFrom scope [] [] scope

/-- What a reference means: a virtual source, or an output of a node. -/
inductive Target where
  | source (text : Text)
  | output (hosts : List Text) (id : Text) (name : Text)

def Target.render : Target → Text
  | .source text => text
  | .output hosts id name => flatId hosts id ++ '/' :: name

def member (id : Text) : Option Member := scope.find? fun item => item.node.id = id

def siblingOutput (hosts : List Text) (id output : Text) : Option Target :=
  match member scope id with
  | none => none
  | some (.plain _) => some (.output hosts id output)
  | some (.hosted _ _ inner) =>
    (producer inner output).map fun found =>
      .output (hosts ++ id :: found.1.hosts) found.1.node.id found.2

/-- The meaning of a reference, given that of the boundary ports. -/
def meaningIn (hosts : List Text) (boundary : Text → Option Target) (source : Text) :
    Option Target :=
  if (recognize source).isSome then some (.source source)
  else
    match boundaryPort source with
    | some port => boundary port
    | none =>
      (splitReference source).bind fun reference =>
        siblingOutput scope hosts reference.1 reference.2

def meaning : List Level → List Member → Text → Option Target
  | [],scope => meaningIn scope [] fun _ => none
  | level :: outer,scope =>
    meaningIn scope (hostsOf (level :: outer)) fun port =>
      (level.host.inputs.get port).bind fun input => meaning outer level.scope input.source

def Names (leaf : Leaf) (flattened source : Text) : Prop :=
  (meaning leaf.levels leaf.scope source).map Target.render = some flattened

structure Wired (node : Node) (leaf : Leaf) : Prop where
  id : node.id = leaf.name
  outputs : node.outputs = leaf.node.outputs
  ports : node.inputs.entries.map Prod.fst = leaf.node.inputs.entries.map Prod.fst
  entries : List.Forall₂ (Names leaf) node.entries leaf.node.entries

end Astrs.Manifests
