/-
Variable names.

A variable is named after an edge as its node, a dot and its port, and both names may hold
dots themselves.
-/

import Astrs.Verify.Deadlock

namespace Astrs.Verify

open Astrs.Base List

/-- The variable `arrivals!key` of the rate system. -/
def arrivalsName (key : EdgeKey) : Text := ['a','r','r','i','v','a','l','s','!'] ++ key.display

def recordPort (index : Nat) : PortName :=
  ['_','r','e','c','o','r','d','/'] ++ (toString index).toList

/-- The inputs that the graph gives a node: its own, and one for each recorded output. -/
def ports (node : Manifests.Node) : List PortName :=
  node.inputs.entries.map Prod.fst ++ (range (node.record.getD []).length).map recordPort

def edgeKeys (manifest : Manifests.Manifest) : List EdgeKey :=
  manifest.nodes.flatMap fun node =>
    (ports node).map fun port => { consumer := node.id, input := port }

theorem display_eq_iff {left right : EdgeKey} : left.display = right.display ↔
    left = right ∨ ∃ middle,
      (right.consumer = left.consumer ++ '.' :: middle ∧ left.input = middle ++ '.' :: right.input) ∨
      (left.consumer = right.consumer ++ '.' :: middle ∧ right.input = middle ++ '.' :: left.input) := by
  obtain ⟨node,port⟩ := left
  obtain ⟨other,far⟩ := right
  unfold EdgeKey.display
  dsimp only
  rw [append_eq_append_iff]
  constructor
  · rintro (⟨_ | ⟨dot,middle⟩,rfl,same⟩ | ⟨_ | ⟨dot,middle⟩,rfl,same⟩)
    · cases same
      simp
    · cases same
      exact .inr ⟨middle,.inl ⟨rfl,rfl⟩⟩
    · cases same
      simp
    · cases same
      exact .inr ⟨middle,.inr ⟨rfl,rfl⟩⟩
  · rintro (same | ⟨middle,⟨rfl,rfl⟩ | ⟨rfl,rfl⟩⟩)
    · cases same
      exact .inl ⟨[],by simp⟩
    · exact .inl ⟨'.' :: middle,rfl,rfl⟩
    · exact .inr ⟨'.' :: middle,rfl,rfl⟩

/-- A node's id continues that of another, and the dot between them could be read either way. -/
def Ambiguous (manifest : Manifests.Manifest) : Prop :=
  ∃ left ∈ edgeKeys manifest, ∃ right ∈ edgeKeys manifest, ∃ middle,
    right.consumer = left.consumer ++ '.' :: middle ∧ left.input = middle ++ '.' :: right.input

theorem variables_distinct_iff (manifest : Manifests.Manifest) :
    (∀ left ∈ edgeKeys manifest, ∀ right ∈ edgeKeys manifest, left ≠ right →
      starvedName left ≠ starvedName right ∧ capacityName left ≠ capacityName right ∧
        arrivalsName left ≠ arrivalsName right) ↔ ¬ Ambiguous manifest := by
  unfold starvedName capacityName arrivalsName Ambiguous
  simp only [ne_eq,append_cancel_left_eq,and_self,display_eq_iff]
  constructor
  · rintro distinct ⟨left,one,right,other,middle,node,port⟩
    refine distinct left one right other ?_ (.inr ⟨middle,.inl ⟨node,port⟩⟩)
    rintro rfl
    exact absurd (congrArg length node) (by simp)
  · rintro clear left one right other apart (same | ⟨middle,first | second⟩)
    · exact apart same
    · exact clear ⟨left,one,right,other,middle,first⟩
    · exact clear ⟨right,other,left,one,middle,second⟩

/-- A node with one input, fed by a timer. -/
def timed (id port : Text) : Manifests.Node :=
  { id := id
    module := none
    record := none
    env := .empty
    inputs := OrderedMap.empty.insert port
      { source := ['a','s','t','r','s','/','t','i','m','e','r','/','h','z','/','1'], queueSize := 1 }
    outputs := []
    inputTypes := .empty
    outputTypes := .empty }

def dotted : Manifests.Manifest :=
  { nodes := [timed ['a'] ['b','.','c'],timed ['a','.','b'] ['c']]
    typeRules := []
    env := .empty
    module := none }

/-- The input `b.c` of `a` and the input `c` of `a.b` share their variables. -/
theorem dotted_names_merge : dotted.validate = [] ∧ ∃ left ∈ edgeKeys dotted,
    ∃ right ∈ edgeKeys dotted, left ≠ right ∧ starvedName left = starvedName right := by
  refine ⟨by decide,⟨['a'],['b','.','c']⟩,by decide,⟨['a','.','b'],['c']⟩,by decide,by decide,rfl⟩

end Astrs.Verify
