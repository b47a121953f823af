/-
Names on their way into modules, and back out.

On the way out each scope takes a carried name for its own when it has a node of that
name.  So a reference keeps its meaning when no scope it was passed into has such a node.
-/

import Astrs.Manifests.References

namespace Astrs.Manifests

open Astrs.Base List Scopes

/-- The part of a name under a host. -/
def inside : Text → Text → Option Text
  | [],letter :: rest => if letter = '.' then some rest else none
  | first :: host,letter :: rest => if first = letter then inside host rest else none
  | _,[] => none

/-- A reference on its way in: the node id of the text that is carried, the flat id of the
producer it means as far as that lies in the present scope, and whether the carried
name still stands for it. -/
structure Passed where
  name : Text
  goal : Option Text
  kept : Bool

/-- Entering the module of a host, in which the nodes have the given names. -/
def Passed.enter (host : Text) (names : List Text) (passed : Passed) : Passed :=
  let goal := passed.goal.bind (inside host)
  { name := passed.name
    goal := goal
    kept := if passed.name ∈ names then decide (goal = some passed.name) else passed.kept }

/-- What a host passes for a sibling's output.  A module declared before it already has its
flattened name; one that is not yet expanded has not. -/
def sent (earlier scope : List Member) (id output : Text) : Option Passed :=
  match member scope id with
  | none => none
  | some (.plain _) => some ⟨id,some id,true⟩
  | some (.hosted _ _ inner) =>
    (producer inner output).map fun found =>
      if (member earlier id).isSome then
        ⟨id ++ '.' :: found.1.name,some (id ++ '.' :: found.1.name),true⟩
      else ⟨id,if found.2 = output then some (id ++ '.' :: found.1.name) else none,false⟩

def sentBy (arrived : Text → Option Passed) (earlier scope : List Member) (source : Text) :
    Option Passed :=
  if (recognize source).isSome then none
  else
    match boundaryPort source with
    | some port => arrived port
    | none =>
      (splitReference source).bind fun reference => sent earlier scope reference.1 reference.2

def arrives : List Level → List Member → Text → Option Passed
  | [],_,_ => none
  | level :: outer,scope,port =>
    (level.host.inputs.get port).bind fun input =>
      (sentBy (arrives outer level.scope) level.earlier level.scope input.source).map
        (Passed.enter level.host.id (innerNames scope))

/-- An entry of a leaf that reads a boundary port reads what was meant. -/
def Uncaptured (leaf : Leaf) (source : Text) : Prop :=
  ((boundaryPort source).bind (arrives leaf.levels leaf.scope)).all Passed.kept = true

instance (leaf : Leaf) (source : Text) : Decidable (Uncaptured leaf source) :=
  inferInstanceAs (Decidable (_ = _))

theorem uncaptured_iff (leaf : Leaf) (source : Text) :
    Uncaptured leaf source ↔ ∀ port, boundaryPort source = some port →
      ∀ passed, arrives leaf.levels leaf.scope port = some passed → passed.kept = true := by
  unfold Uncaptured
  cases boundaryPort source with
  | none => simp
  | some port =>
    simp only [Option.bind_some,Option.some.injEq,forall_eq']
    cases arrives leaf.levels leaf.scope port <;> simp

/-- The scopes from an instance to the root. -/
def framesOf : List Level → List Member → List (Frame Char)
  | [],_ => []
  | level :: outer,scope => ⟨level.host.id,innerNames scope⟩ :: framesOf outer level.scope

def Leads : List Level → List Member → Prop
  | [],_ => True
  | level :: outer,scope =>
    (∃ manifest, .hosted level.host manifest scope ∈ level.scope) ∧ '/' ∉ level.host.id ∧
      Leads outer level.scope

theorem hosts_framesOf (levels : List Level) (scope : List Member) :
    hosts (framesOf levels scope) = hostsOf levels := by
  unfold hosts hostsOf
  congr 1
  induction levels generalizing scope with
  | nil => rfl
  | cons level outer ih =>
    rw [framesOf,map_cons,map_cons,ih]

variable {levels : List Level} {scope : List Member} {name : Text}

theorem plainHosts_framesOf (leads : Leads levels scope) : PlainHosts (framesOf levels scope) := by
  induction levels generalizing scope with
  | nil =>
    exact forall_mem_nil _
  | cons level outer ih =>
    exact forall_mem_cons.mpr ⟨leads.2.1,ih leads.2.2⟩

theorem mem_innerNames {member : Member} {item : Inner} (present : member ∈ scope)
    (held : item ∈ member.nodes) : item.name ∈ innerNames scope := by
  apply mem_map_of_mem
  induction scope with
  | nil => exact absurd present not_mem_nil
  | cons first rest ih =>
    unfold innerNodes
    rcases mem_cons.mp present with rfl | later
    · exact mem_append_left _ held
    · exact mem_append_right _ (ih later)

theorem mem_innerNames_of_hosted {inner : List Member} {host : Node} {manifest : Manifest}
    (present : .hosted host manifest inner ∈ scope) (named : name ∈ innerNames inner) :
    host.id ++ '.' :: name ∈ innerNames scope := by
  obtain ⟨item,isInner,rfl⟩ := mem_map.mp named
  have held : item.under host.id ∈ (Member.hosted host manifest inner).nodes :=
    mem_map_of_mem isInner
  exact mem_innerNames present held

theorem nested_framesOf (leads : Leads levels scope) :
    Scopes.Nested '.' (framesOf levels scope) := by
  induction levels generalizing scope with
  | nil => trivial
  | cons level outer ih =>
    have further := ih leads.2.2
    cases outer with
    | nil => trivial
    | cons =>
      obtain ⟨_,present⟩ := leads.1
      exact ⟨fun name named => mem_innerNames_of_hosted present named,further⟩

theorem lift_framesOf (leads : Leads levels scope) (named : name ∈ innerNames scope) :
    lift '.' (framesOf levels scope) name = flatId (hostsOf levels) name := by
  rw [← hosts_framesOf levels scope]
  cases levels with
  | nil => rfl
  | cons => exact lift_of_mem '.' (nested_framesOf leads) named

/-! ### Carried references -/

theorem inside_eq_some (host name rest : Text) :
    inside host name = some rest ↔ name = host ++ '.' :: rest := by
  induction host generalizing name with
  | nil =>
    cases name with
    | nil | cons => simp [inside]
  | cons first host ih =>
    cases name with
    | nil => simp [inside]
    | cons letter =>
      unfold inside
      rw [cons_append,List.cons.injEq]
      by_cases same : first = letter
      · rw [if_pos same,ih,eq_comm,eq_comm (b := first)]
        simp only [same,true_and,eq_comm]
      · rw [if_neg same,eq_comm (b := first)]
        simp only [same,false_and,reduceCtorEq]

/-- What the bookkeeping says about a carried name and the target it was meant for. -/
structure Carried (frames : List (Frame Char)) (passed : Passed) (output : Text) (target : Target) :
    Prop where
  name : IsName passed.name
  ordinary : passed.name ≠ virtualId
  filled : output ≠ []
  goal : ∀ id, '/' ∉ id → (passed.goal = some id ↔
    target.render = flatId (hosts frames) id ++ '/' :: output)
  kept : passed.kept = true ↔ lift '.' frames passed.name ++ '/' :: output = target.render

theorem Carried.enter {frame : Frame Char} {frames : List (Frame Char)} {passed : Passed}
    {output : Text} {target : Target} (carried : Carried frames passed output target)
    (nested : Scopes.Nested '.' (frame :: frames)) (plain : '/' ∉ frame.host) :
    Carried (frame :: frames) (passed.enter frame.host frame.names) output target := by
  have goal : ∀ id, '/' ∉ id → ((passed.enter frame.host frame.names).goal = some id ↔
      target.render = flatId (hosts (frame :: frames)) id ++ '/' :: output) := by
    intro id slashless
    unfold flatId
    rw [qualify_hosts_cons]
    change passed.goal.bind (inside frame.host) = some id ↔ _
    rw [Option.bind_eq_some_iff]
    simp only [inside_eq_some,exists_eq_right]
    exact carried.goal _ (isName_under plain slashless).plain
  refine ⟨carried.name,carried.ordinary,carried.filled,goal,?_⟩
  by_cases present : passed.name ∈ frame.names
  · have kept : (passed.enter frame.host frame.names).kept =
        decide ((passed.enter frame.host frame.names).goal = some passed.name) := if_pos present
    rw [kept,decide_eq_true_eq,goal _ carried.name.plain]
    change _ ↔ lift '.' (frame :: frames) passed.name ++ '/' :: output = _
    rw [lift_of_mem '.' nested present]
    exact eq_comm
  · have kept : (passed.enter frame.host frame.names).kept = passed.kept := if_neg present
    rw [kept,carried.kept]
    change _ ↔ lift '.' (frame :: frames) passed.name ++ '/' :: output = _
    rw [lift_of_not_mem '.' frames present]

/-- What arrives at a port, the text that is carried there, and what it means. -/
inductive Arrived (frames : List (Frame Char)) : Option Passed → Text → Target → Prop
  | virtual {source : Text} (recognized : (recognize source).isSome = true) :
      Arrived frames none source (.source source)
  | carried {passed : Passed} {output : Text} {target : Target}
      (carried : Carried frames passed output target) :
      Arrived frames (some passed) (passed.name ++ '/' :: output) target

section

variable {frames : List (Frame Char)} {passed : Option Passed} {text : Text} {target : Target}
  (arrived : Arrived frames passed text target)
include arrived

theorem Arrived.enter {frame : Frame Char} (nested : Scopes.Nested '.' (frame :: frames))
    (plain : '/' ∉ frame.host) :
    Arrived (frame :: frames) (passed.map (Passed.enter frame.host frame.names)) text target := by
  cases arrived with
  | virtual known => exact .virtual known
  | carried carried => exact .carried (carried.enter nested plain)

theorem Arrived.right_iff (plain : PlainHosts frames) :
    liftSource frames text = target.render ↔ ∀ item, passed = some item → item.kept = true := by
  cases arrived with
  | virtual known =>
    rw [liftSource_virtual frames known]
    constructor
    · exact nofun
    · exact fun _ => rfl
  | carried carried =>
    rw [(liftSource_reference plain carried.name carried.ordinary carried.filled).1,← carried.kept]
    constructor
    · rintro kept item same
      cases same
      exact kept
    · exact fun kept => kept _ rfl

end

section

variable {output : Text} {target : Target}

/-- A name of the scope it is written in stands for itself. -/
theorem carried_own (leads : Leads levels scope) (named : name ∈ innerNames scope)
    (isName : IsName name) (ordinary : name ≠ virtualId) (filled : output ≠ [])
    (render : target.render = flatId (hostsOf levels) name ++ '/' :: output) :
    Carried (framesOf levels scope) ⟨name,some name,true⟩ output target where
  name := isName
  ordinary := ordinary
  filled := filled
  goal := by
    intro _ _
    rw [hosts_framesOf,render,Option.some.injEq]
    constructor
    · rintro rfl
      rfl
    · intro same
      exact qualify_injective '.' _ (append_cancel_right same)
  kept := by
    rw [lift_framesOf leads named,render]
    exact ⟨fun _ => rfl,fun _ => rfl⟩

/-- The name of a module does not stand for the producer inside it. -/
theorem carried_late (leads : Leads levels scope) {id inner spelling : Text} (isName : IsName id)
    (ordinary : id ≠ virtualId) (filled : output ≠ []) (plain : '/' ∉ inner)
    (render : target.render = flatId (hostsOf levels) (id ++ '.' :: inner) ++ '/' :: spelling) :
    Carried (framesOf levels scope)
      ⟨id,if spelling = output then some (id ++ '.' :: inner) else none,false⟩ output target := by
  have hosts : ∀ host ∈ hostsOf levels, '/' ∉ host := by
    intro _ member
    rw [← hosts_framesOf levels scope] at member
    obtain ⟨frame,present,rfl⟩ := mem_map.mp (mem_reverse.mp member)
    exact plainHosts_framesOf leads frame present
  have slashless := (isName_under isName.plain plain).plain
  refine ⟨isName,ordinary,filled,?_,?_⟩
  · intro _ otherPlain
    rw [hosts_framesOf,render]
    constructor
    · intro goal
      split at goal
      · rename_i same
        cases goal
        rw [same]
      · cases goal
    · intro same
      obtain ⟨names,outputs⟩ := reference_inj (plain_flatId hosts slashless)
        (plain_flatId hosts otherPlain) same
      rw [if_pos outputs,qualify_injective '.' _ names]
  · constructor
    · exact nofun
    · intro same
      exfalso
      have reference := liftSource_reference (plainHosts_framesOf leads) isName ordinary filled
      rw [render] at same
      have names := (reference_inj reference.2 (plain_flatId hosts slashless) same).1
      have long := length_lift_le '.' (framesOf levels scope) id
      rw [names,hosts_framesOf] at long
      unfold flatId at long
      rw [length_qualify,length_qualify _ _ id,length_append,length_cons] at long
      omega

end

end Astrs.Manifests
