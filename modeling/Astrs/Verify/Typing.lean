/-
Type-rule consistency: the constraint system, and the type checker it stands beside.

The system has a solution exactly when no chain of rules, each applied as it is spelled,
leads from the produced type to the consumed one.  The type checker of the graph applies at
most one rule, and to any spelling.
-/

import Astrs.Graph.TypeCheck

namespace Astrs.Verify.Typing

open Astrs.Base Astrs.Graph ConstraintSystem OrderedMap Formula
open Manifests (TypeRule Urn)

/-- The variable `reach!urn`: the type is inside the separating set. -/
def reachName (urn : Urn) : Text := ['r','e','a','c','h','!'] ++ urn

abbrev ReachVars := OrderedMap Urn VarId

def addRule (universe_ : OrderedSet Urn) (rule : TypeRule) :
    OrderedSet Urn :=
  (universe_.insert rule.source).insert rule.target

/-- Every type that the two ends and the rules mention. -/
def typeUniverse (rules : List TypeRule) (produced consumed : Urn) :
    OrderedSet Urn :=
  rules.foldl addRule ((OrderedSet.empty.insert produced).insert consumed)

def declareReach (state : ConstraintSystem × ReachVars) (urn : Urn) :
    ConstraintSystem × ReachVars :=
  let (id,system) := state.1.boolVar (reachName urn)
  (system,state.2.insert urn id)

def assertClosure (vars : ReachVars) (system : ConstraintSystem) (rule : TypeRule) :
    ConstraintSystem :=
  match vars.get rule.source, vars.get rule.target with
  | some source,some target =>
    system.assert ((boolVar source).implies (boolVar target))
  | _,_ => system

def assertInside (vars : ReachVars) (system : ConstraintSystem) (urn : Urn) :
    ConstraintSystem :=
  match vars.get urn with
  | some start => system.assert (boolVar start)
  | none => system

def assertOutside (vars : ReachVars) (system : ConstraintSystem) (urn : Urn) :
    ConstraintSystem :=
  match vars.get urn with
  | some target => system.assert (boolVar target).not
  | none => system

def encode (model : Model) (produced consumed : Urn) : ConstraintSystem × ReachVars :=
  let (declared,vars) := (typeUniverse model.typeRules produced consumed).elems.foldl declareReach
      (new,empty)
  let closed := model.typeRules.foldl (assertClosure vars) declared
  (assertOutside vars (assertInside vars closed produced) consumed,vars)

variable {rules : List TypeRule} {produced consumed : Urn}

section Meaning

variable {point : VarId → Int}

theorem mem_foldl_addRule (set : OrderedSet Urn) (urn : Urn) :
    urn ∈ (rules.foldl addRule set).elems ↔
      urn ∈ set.elems ∨ ∃ rule ∈ rules, urn = rule.source ∨ urn = rule.target := by
  have steps : ∀ (set : OrderedSet Urn) (rule : TypeRule),
      urn ∈ (addRule set rule).elems ↔
        urn ∈ set.elems ∨ (urn = rule.source ∨ urn = rule.target) := by
    intro _ _
    unfold addRule
    rw [OrderedSet.mem_insert,OrderedSet.mem_insert]
    tauto
  exact @foldl_or_iff _ _ addRule (fun set => urn ∈ set.elems)
    (fun rule => urn = rule.source ∨ urn = rule.target) steps rules set

/-- A separating set, as the assignment marks it. -/
structure Separates (rules : List TypeRule) (inside : Urn → Prop)
    (produced consumed : Urn) : Prop where
  closed : ∀ rule ∈ rules, inside rule.source → inside rule.target
  start : inside produced
  target : ¬ inside consumed

theorem satisfies_encode_iff (model : Model) (produced consumed : Urn) :
    (encode model produced consumed).1.Satisfies point ↔
      Separates model.typeRules (fun urn => point (reachName urn) ≠ 0) produced consumed := by
  have declared := foldl_unchanged declareReach (fun state => state.1.Satisfies point)
    (fun _ _ => satisfies_declare)
    (typeUniverse model.typeRules produced consumed).elems (new,empty)
  have known : ∀ urn, (urn = produced ∨ urn = consumed ∨
      ∃ rule ∈ model.typeRules, urn = rule.source ∨ urn = rule.target) →
      ((typeUniverse model.typeRules produced consumed).elems.foldl declareReach
        (new,empty)).2.get urn = some (reachName urn) := by
    intro _ mentioned
    rw [foldl_reads (fun state : ConstraintSystem × ReachVars => state.2.get) reachName
      (fun state urn other => state.2.get_insert urn other _),if_pos]
    unfold typeUniverse
    rw [mem_foldl_addRule]
    rw [OrderedSet.mem_insert,OrderedSet.mem_insert]
    rcases mentioned with first | second | ruled
    · exact .inl (.inr (.inl first))
    · exact .inl (.inl second)
    · exact .inr ruled
  have closures : ∀ (rules : List TypeRule) (system : ConstraintSystem),
      (∀ rule ∈ rules, rule ∈ model.typeRules) →
      ((rules.foldl (assertClosure ((typeUniverse model.typeRules produced consumed).elems.foldl
        declareReach (new,empty)).2) system).Satisfies point ↔
        system.Satisfies point ∧ ∀ rule ∈ rules, point (reachName rule.source) ≠ 0 →
          point (reachName rule.target) ≠ 0) := by
    intro rules
    induction rules with
    | nil => simp
    | cons rule rules ih =>
      intro _ listed
      have member := listed rule List.mem_cons_self
      rw [List.foldl_cons,ih _ fun other later => listed other (List.mem_cons_of_mem rule later)]
      unfold assertClosure
      rw [known rule.source (.inr (.inr ⟨rule,member,.inl rfl⟩)),
        known rule.target (.inr (.inr ⟨rule,member,.inr rfl⟩))]
      rw [satisfies_assert,holds_implies,holds_boolVar,
        holds_boolVar,List.forall_mem_cons,and_assoc]
  unfold encode assertOutside assertInside
  dsimp only
  rw [known consumed (.inr (.inl rfl)),known produced (.inl rfl)]
  rw [satisfies_assert,satisfies_assert,
    closures _ _ fun rule listed => listed,declared,holds_not,holds_boolVar,
    holds_boolVar]
  constructor
  · rintro ⟨⟨⟨_,closed⟩,start⟩,target⟩
    exact ⟨closed,start,target⟩
  · intro separates
    exact ⟨⟨⟨satisfies_new,separates.closed⟩,separates.start⟩,separates.target⟩

/-- One rule, applied as it is spelled. -/
def Rewrites (rules : List TypeRule) (source target : Urn) : Prop :=
  ∃ rule ∈ rules, rule.source = source ∧ rule.target = target

/-- The system is unsatisfiable exactly when a chain of rules leads from one end to the other. -/
theorem unsatisfiable_iff_chain (model : Model) (produced consumed : Urn) :
    ¬ (encode model produced consumed).1.IsSatisfiable ↔
      Relation.ReflTransGen (Rewrites model.typeRules) produced consumed := by
  classical
  constructor
  · intro unsatisfiable
    by_contra apart
    apply unsatisfiable
    refine ⟨fun name => if Relation.ReflTransGen (Rewrites model.typeRules) produced (name.drop 6)
      then 1 else 0,?_⟩
    rw [satisfies_encode_iff]
    have marked : ∀ urn : Urn, (if Relation.ReflTransGen (Rewrites model.typeRules)
        produced ((reachName urn).drop 6) then (1 : Int) else 0) ≠ 0 ↔
        Relation.ReflTransGen (Rewrites model.typeRules) produced urn := by
      intro urn
      have same : (reachName urn).drop 6 = urn := rfl
      split <;> simp_all
    refine ⟨?_,(marked produced).mpr .refl,fun reached => apart ((marked consumed).mp reached)⟩
    intro rule listed inside
    exact (marked rule.target).mpr (((marked rule.source).mp inside).tail ⟨rule,listed,rfl,rfl⟩)
  · rintro chain ⟨point,satisfies⟩
    rw [satisfies_encode_iff] at satisfies
    have trapped : ∀ urn, Relation.ReflTransGen (Rewrites model.typeRules) produced urn →
        point (reachName urn) ≠ 0 := by
      intro _ reached
      induction reached with
      | refl => exact satisfies.start
      | tail _ last ih =>
        obtain ⟨rule,listed,rfl,rfl⟩ := last
        exact satisfies.closed rule listed ih
    exact satisfies.target (trapped consumed chain)

end Meaning

/-! ### The two checkers -/

section

variable {graph : DataflowGraph} {key : EdgeKey} {edge : Edge}

theorem edgeStatus_compatible_iff (output : outputTypeOf graph.nodes edge.source = some produced)
    (input : inputTypeOf graph.nodes key = some consumed) :
    edgeStatus graph.nodes key edge graph.typeRules = .compatible ↔
      urnsEquivalent produced consumed = true ∨
        ruleAllows graph.typeRules produced consumed = true := by
  have symmetric : urnsEquivalent consumed produced = urnsEquivalent produced consumed := by
    exact decide_eq_decide.mpr eq_comm
  unfold edgeStatus
  rw [output,input]
  dsimp only
  rw [symmetric,← Bool.or_eq_true]
  split
  · rename_i accepted
    exact iff_of_true rfl accepted
  · rename_i rejected
    exact iff_of_false nofun rejected

theorem edgeTypes_both (found : graph.edges.get key = some edge)
    (typed : ((Model.fromGraph graph).edgeTypes.get key).bind EdgeTypes.both =
      some (produced,consumed)) :
    outputTypeOf graph.nodes edge.source = some produced ∧
      inputTypeOf graph.nodes key = some consumed := by
  have types : (Model.fromGraph graph).edgeTypes.get key =
      some { produced := outputTypeOf graph.nodes edge.source
             consumed := inputTypeOf graph.nodes key } := by
    change (collectEdgeTypes graph).get key = _
    unfold collectEdgeTypes
    rw [get_mapWithKey,found]
    rfl
  rw [types,Option.bind_some] at typed
  obtain ⟨_,made,rest⟩ := Option.bind_eq_some_iff.mp typed
  obtain ⟨_,declared,same⟩ := Option.bind_eq_some_iff.mp rest
  cases same
  exact ⟨made,declared⟩

end

/-- The ends are spelled alike, or a rule spells both, or there is both a rule or none needed up
to the order of parameters and a chain of two rules or more, or there is neither. -/
def AgreeOn (rules : List TypeRule) (produced consumed : Urn) : Prop :=
  let allowed := urnsEquivalent produced consumed = true ∨ ruleAllows rules produced consumed = true
  let chained := ∃ between, Rewrites rules produced between ∧
    Relation.TransGen (Rewrites rules) between consumed
  produced = consumed ∨ Rewrites rules produced consumed ∨
    (allowed ∧ chained) ∨ (¬ allowed ∧ ¬ chained)

theorem ruleAllows_of_rewrites
    (rewrites : Rewrites rules produced consumed) : ruleAllows rules produced consumed = true := by
  obtain ⟨rule,listed,rfl,rfl⟩ := rewrites
  unfold ruleAllows urnsEquivalent
  exact List.any_eq_true.mpr ⟨rule,listed,by simp⟩

theorem chain_iff : Relation.ReflTransGen (Rewrites rules) produced consumed ↔
      produced = consumed ∨ Rewrites rules produced consumed ∨
        ∃ between, Rewrites rules produced between ∧
          Relation.TransGen (Rewrites rules) between consumed := by
  constructor
  · intro chain
    cases chain.cases_head with
    | inl same => exact .inl same
    | inr longer =>
      obtain ⟨between,first,rest⟩ := longer
      cases Relation.reflTransGen_iff_eq_or_transGen.mp rest with
      | inl same =>
        rw [same]
        exact .inr (.inl first)
      | inr onward => exact .inr (.inr ⟨between,first,onward⟩)
  · rintro (rfl | once | ⟨_,first,rest⟩)
    · exact .refl
    · exact .single once
    · exact .head first rest.to_reflTransGen

/-- The two type checkers agree on an edge exactly when its ends are spelled alike, a rule spells
both, or a chain of at least two rules leads from one to the other just when the graph's checker
matches them up to the order of parameters. -/
theorem type_checkers_agree_iff (graph : DataflowGraph) (key : EdgeKey) (edge : Edge)
    (found : graph.edges.get key = some edge) (produced consumed : Urn)
    (typed : ((Model.fromGraph graph).edgeTypes.get key).bind EdgeTypes.both =
      some (produced,consumed)) :
    (edgeStatus graph.nodes key edge graph.typeRules = .compatible ↔
        ¬ (encode (Model.fromGraph graph) produced consumed).1.IsSatisfiable) ↔
      AgreeOn graph.typeRules produced consumed := by
  obtain ⟨output,input⟩ := edgeTypes_both found typed
  rw [edgeStatus_compatible_iff output input,unsatisfiable_iff_chain]
  change ((_ ∨ _) ↔ Relation.ReflTransGen (Rewrites graph.typeRules) produced consumed) ↔ _
  rw [chain_iff]
  unfold AgreeOn
  by_cases same : produced = consumed
  · have alike : urnsEquivalent produced consumed = true := by
      rw [same]
      exact decide_eq_true rfl
    exact iff_of_true (iff_of_true (.inl alike) (.inl same)) (.inl same)
  · by_cases once : Rewrites graph.typeRules produced consumed
    · exact iff_of_true (iff_of_true (.inr (ruleAllows_of_rewrites once)) (.inr (.inl once)))
        (.inr (.inl once))
    · simp only [same,once,false_or]
      exact iff_iff_and_or_not_and_not

/-- A camera that feeds a detector, with a type on each end. -/
def typedPair (produced consumed : Urn) (rules : List TypeRule) :
    DataflowGraph :=
  { nodes := ofList
      [(['c'],{ outputs := ofList [(['o'],⟨some produced⟩)]
                inputs := empty
                pattern := none }),
        (['d'],{ outputs := empty
                 inputs := ofList [(['i'],⟨some consumed⟩)]
                 pattern := none })]
    edges := ofList [(⟨['d'],['i']⟩,⟨.nodeOutput ['c'] ['o'],⟨1,.dropOldest⟩⟩)]
    strictTypes := true
    typeRules := rules }

def media (name : Text) : Urn :=
  ['s','t','d','/','m','e','d','i','a','/','v','1','/'] ++ name

theorem typedPair_typed (produced consumed : Urn) (rules : List TypeRule) :
    ((Model.fromGraph (typedPair produced consumed rules)).edgeTypes.get ⟨['d'],['i']⟩).bind
      EdgeTypes.both = some (produced,consumed) := rfl

def pairStatus (produced consumed : Urn) (rules : List TypeRule) :
    EdgeTypeStatus :=
  edgeStatus (typedPair produced consumed rules).nodes ⟨['d'],['i']⟩
    ⟨.nodeOutput ['c'] ['o'],⟨1,.dropOldest⟩⟩ rules

def pairSystem (produced consumed : Urn) (rules : List TypeRule) :
    ConstraintSystem :=
  (encode (Model.fromGraph (typedPair produced consumed rules)) produced consumed).1

/-- A rule from one end to the other is applied by both. -/
theorem ruled_pair_agrees :
    pairStatus (media ['A']) (media ['B']) [⟨media ['A'],media ['B']⟩] = .compatible ∧
      ¬ (pairSystem (media ['A']) (media ['B']) [⟨media ['A'],media ['B']⟩]).IsSatisfiable := by
  have accepted : pairStatus (media ['A']) (media ['B']) [⟨media ['A'],media ['B']⟩] =
      .compatible := by
    decide +kernel
  have agree := (type_checkers_agree_iff
    (typedPair (media ['A']) (media ['B']) [⟨media ['A'],media ['B']⟩]) ⟨['d'],['i']⟩ _ rfl _ _
    (typedPair_typed _ _ _)).mpr (.inr (.inl ⟨_,List.mem_singleton_self _,rfl,rfl⟩))
  exact ⟨accepted,agree.mp accepted⟩

def twoRules : List TypeRule := [⟨media ['A'],media ['B']⟩,⟨media ['B'],media ['C']⟩]

/-- One type, written with its parameters in either order. -/
def sorted : Urn := media ['A','[','x','=','1',',','y','=','2',']']

def unsorted : Urn := media ['A','[','y','=','2',',','x','=','1',']']

/-- Two rules in a row: the graph's checker reports a mismatch and the verifier a proof.  Parameters
in another order: the graph's checker accepts the edge and the verifier finds a violation. -/
theorem checkers_disagree :
    (pairStatus (media ['A']) (media ['C']) twoRules = .mismatch (media ['C']) (media ['A']) ∧
      ¬ (pairSystem (media ['A']) (media ['C']) twoRules).IsSatisfiable) ∧
    pairStatus sorted unsorted [] = .compatible ∧ (pairSystem sorted unsorted []).IsSatisfiable := by
  refine ⟨⟨by decide +kernel,?_⟩,by decide +kernel,?_⟩
  · unfold pairSystem
    rw [unsatisfiable_iff_chain,chain_iff]
    refine .inr (.inr ⟨media ['B'],⟨_,List.mem_cons_self,rfl,rfl⟩,.single ?_⟩)
    exact ⟨_,List.mem_cons_of_mem _ List.mem_cons_self,rfl,rfl⟩
  · by_contra unsatisfiable
    unfold pairSystem at unsatisfiable
    rw [unsatisfiable_iff_chain] at unsatisfiable
    cases unsatisfiable.cases_head with
    | inl same => exact absurd same (by decide)
    | inr longer =>
      obtain ⟨_,⟨_,listed,_⟩,_⟩ := longer
      cases listed

end Astrs.Verify.Typing
