/-
The scope of a latency budget.

The walk upstream from a channel ends, and what it has collected is closed: the inputs of
its nodes are among its channels, and the producers on its channels are its nodes.
-/

import Astrs.Verify.Latency

namespace Astrs.Verify

open Astrs.Base
open List hiding contains_iff
open OrderedSet (contains_iff mem_insert)

section Walk

variable {model : Model}

theorem foldl_visitInput (keys : List EdgeKey) (state : Upstream) :
    (keys.foldl (visitInput model) state).nodes = state.nodes ∧
      (∀ key, key ∈ (keys.foldl (visitInput model) state).channels.elems ↔
        key ∈ keys ∨ key ∈ state.channels.elems) ∧
      (∀ id, id ∈ (keys.foldl (visitInput model) state).worklist ↔
        (id ∉ state.nodes.elems ∧ ∃ key ∈ keys, model.producerOn key = some id) ∨
          id ∈ state.worklist) ∧
      (keys.foldl (visitInput model) state).worklist.length ≤
        state.worklist.length + keys.length := by
  induction keys generalizing state with
  | nil => simp
  | cons key keys ih =>
    obtain ⟨nodes,channels,worklist,_⟩ := ih (visitInput model state key)
    have sameNodes : (visitInput model state key).nodes = state.nodes := rfl
    have moreChannels : ∀ other, other ∈ (visitInput model state key).channels.elems ↔
        other = key ∨ other ∈ state.channels.elems := fun other => mem_insert
    have moreWork : ∀ id, id ∈ (visitInput model state key).worklist ↔
        (id ∉ state.nodes.elems ∧ model.producerOn key = some id) ∨ id ∈ state.worklist := by
      intro _
      unfold visitInput
      cases model.producerOn key with
      | none => simp
      | some =>
        dsimp only
        split
        · rename_i met
          rw [contains_iff] at met
          constructor
          · exact .inr
          · rintro (⟨fresh,same⟩ | already)
            · cases same
              exact absurd met fresh
            · exact already
        · rename_i unmet
          rw [contains_iff] at unmet
          rw [mem_cons]
          constructor
          · rintro (rfl | already)
            · exact .inl ⟨unmet,rfl⟩
            · exact .inr already
          · rintro (⟨_,same⟩ | already)
            · cases same
              exact .inl rfl
            · exact .inr already
    have shorter : (visitInput model state key).worklist.length ≤ state.worklist.length + 1 := by
      unfold visitInput
      cases model.producerOn key with
      | none => simp
      | some =>
        dsimp only
        split <;> simp
    rw [foldl_cons]
    refine ⟨nodes.trans sameNodes,?_,?_,?_⟩
    · intro _
      rw [channels,moreChannels,mem_cons]
      tauto
    · intro _
      rw [worklist,moreWork,sameNodes]
      simp only [mem_cons,exists_eq_or_imp]
      rw [and_or_left,or_assoc]
      exact or_left_comm
    · rw [length_cons]
      omega

def unmetInputs (nodes : OrderedSet NodeId) (bindings : List (NodeId × Node)) : Nat :=
  ((bindings.filter fun binding => !nodes.contains binding.1).flatMap fun binding =>
    binding.2.inputs).length

theorem unmetInputs_cons (nodes : OrderedSet NodeId) (pair : NodeId × Node)
    (bindings : List (NodeId × Node)) :
    unmetInputs nodes (pair :: bindings) =
      (if pair.1 ∈ nodes.elems then 0 else pair.2.inputs.length) +
        unmetInputs nodes bindings := by
  unfold unmetInputs
  by_cases met : pair.1 ∈ nodes.elems
  · have held := (contains_iff nodes pair.1).mpr met
    simp [held,met]
  · have absent : nodes.contains pair.1 = false := by
      rw [Bool.eq_false_iff]
      exact fun held => met ((contains_iff nodes pair.1).mp held)
    simp [absent,met]

theorem unmetInputs_insert_le (nodes : OrderedSet NodeId) (id : NodeId)
    (bindings : List (NodeId × Node)) :
    unmetInputs (nodes.insert id) bindings ≤ unmetInputs nodes bindings := by
  induction bindings with
  | nil => exact le_refl _
  | cons pair =>
    rw [unmetInputs_cons,unmetInputs_cons]
    by_cases met : pair.1 ∈ nodes.elems
    · rw [if_pos met,if_pos (mem_insert.mpr (.inr met))]
      omega
    · rw [if_neg met]
      split <;> omega

variable {id : NodeId} {goal : EdgeKey}

theorem unmetInputs_insert (nodes : OrderedSet NodeId) {node : Node}
    (unmet : id ∉ nodes.elems) {bindings : List (NodeId × Node)} (listed : (id,node) ∈ bindings) :
    unmetInputs (nodes.insert id) bindings + node.inputs.length ≤ unmetInputs nodes bindings := by
  induction bindings with
  | nil => cases listed
  | cons pair bindings ih =>
    have fewer := unmetInputs_insert_le nodes id bindings
    rw [unmetInputs_cons,unmetInputs_cons]
    rw [mem_cons] at listed
    cases listed with
    | inl same =>
      rw [← same,if_pos (mem_insert.mpr (.inl rfl)),if_neg unmet]
      dsimp only
      omega
    | inr later =>
      have rest := ih later
      by_cases met : pair.1 ∈ nodes.elems
      · rw [if_pos met,if_pos (mem_insert.mpr (.inr met))]
        omega
      · rw [if_neg met]
        split <;> omega

/-- What the walk keeps: the target is in the scope, the inputs of every node met are too, and the
producers on the channels of the scope are the nodes met and those still to visit. -/
structure Upstream.Closed (model : Model) (target : EdgeKey) (state : Upstream) : Prop where
  target : target ∈ state.channels.elems
  inputs : ∀ id ∈ state.nodes.elems, ∀ node, model.nodes.get id = some node →
    ∀ key ∈ node.inputs, key ∈ state.channels.elems
  producers : ∀ key ∈ state.channels.elems, ∀ id, model.producerOn key = some id →
    id ∈ state.nodes.elems ∨ id ∈ state.worklist
  produce : ∀ id, id ∈ state.nodes.elems ∨ id ∈ state.worklist →
    ∃ key ∈ state.channels.elems, model.producerOn key = some id

section

variable {state : Upstream} {rest : List NodeId}
  (closed : state.Closed model goal) (worklist : state.worklist = id :: rest)
include closed worklist

theorem Upstream.Closed.pop (met : id ∈ state.nodes.elems) :
    Upstream.Closed model goal { state with worklist := rest } := by
  refine ⟨closed.target,closed.inputs,fun key mem other made => ?_,fun other known => ?_⟩
  · have either := closed.producers key mem other made
    rw [worklist,mem_cons] at either
    rcases either with inside | same | later
    · exact .inl inside
    · rw [same]
      exact .inl met
    · exact .inr later
  · apply closed.produce
    rw [worklist]
    exact known.imp_right (mem_cons_of_mem id)

theorem Upstream.Closed.visit :
    Upstream.Closed model goal (visitNode model { state with worklist := rest } id) := by
  have listed : ∀ other, other ∈ state.nodes.elems ∨ other ∈ id :: rest →
      ∃ key ∈ state.channels.elems, model.producerOn key = some other := by
    rw [← worklist]
    exact closed.produce
  have made := closed.producers
  rw [worklist] at made
  unfold visitNode
  cases found : model.nodes.get id with
  | none =>
    refine ⟨closed.target,?_,?_,?_⟩
    · intro other mem node held
      rcases mem_insert.mp mem with same | before
      · rw [same,found] at held
        cases held
      · exact closed.inputs other before node held
    · intro key mem other produces
      rcases made key mem other produces with before | later
      · exact .inl (mem_insert.mpr (.inr before))
      · exact (mem_cons.mp later).imp_left fun same => mem_insert.mpr (.inl same)
    · intro _ known
      apply listed
      rcases known with met | waiting
      · rcases mem_insert.mp met with same | before
        · exact .inr (mem_cons.mpr (.inl same))
        · exact .inl before
      · exact .inr (mem_cons_of_mem id waiting)
  | some node =>
    have start := @foldl_visitInput model node.inputs
      { state with worklist := rest, nodes := state.nodes.insert id }
    obtain ⟨nodes,channels,work,_⟩ := start
    refine ⟨(channels goal).mpr (.inr closed.target),?_,?_,?_⟩
    · intro other mem held known key input
      rw [nodes] at mem
      apply (channels key).mpr
      rcases mem_insert.mp mem with same | before
      · rw [same,found] at known
        cases known
        exact .inl input
      · exact .inr (closed.inputs other before held known key input)
    · intro key mem other produces
      rw [nodes,work]
      by_cases met : other ∈ (state.nodes.insert id).elems
      · exact .inl met
      · refine .inr ?_
        rcases (channels key).mp mem with input | before
        · exact .inl ⟨met,key,input,produces⟩
        · rcases made key before other produces with old | later
          · exact absurd (mem_insert.mpr (.inr old)) met
          · rcases mem_cons.mp later with same | waiting
            · exact absurd (mem_insert.mpr (.inl same)) met
            · exact .inr waiting
    · intro other known
      rw [nodes,work] at known
      have old : other ∈ state.nodes.elems ∨ other ∈ id :: rest →
          ∃ key ∈ (node.inputs.foldl (visitInput model)
            { state with worklist := rest, nodes := state.nodes.insert id }).channels.elems,
            model.producerOn key = some other := by
        intro before
        obtain ⟨key,mem,produces⟩ := listed other before
        exact ⟨key,(channels key).mpr (.inr mem),produces⟩
      rcases known with met | ⟨_,key,input,produces⟩ | waiting
      · rcases mem_insert.mp met with same | before
        · exact old (.inr (mem_cons.mpr (.inl same)))
        · exact old (.inl before)
      · exact ⟨key,(channels key).mpr (.inl input),produces⟩
      · exact old (.inr (mem_cons_of_mem id waiting))

end

/-- The scope is closed under producers, and holds nothing but what produces on its channels. -/
def Scope.Closed (model : Model) (target : EdgeKey) (scope : Scope) : Prop :=
  Upstream.Closed model target { scope with worklist := [] }

theorem Scope.Closed.producers {scope : Scope} (closed : scope.Closed model goal) {key : EdgeKey}
    (mem : key ∈ scope.channels.elems) (id : NodeId) (made : model.producerOn key = some id) :
    id ∈ scope.nodes.elems :=
  (Upstream.Closed.producers closed key mem id made).resolve_right not_mem_nil

theorem length_visitNode (state : Upstream) (unmet : id ∉ state.nodes.elems) :
    (visitNode model state id).worklist.length +
        unmetInputs (visitNode model state id).nodes model.nodes.entries ≤
      state.worklist.length + unmetInputs state.nodes model.nodes.entries := by
  unfold visitNode
  cases found : model.nodes.get id with
  | none =>
    have fewer := unmetInputs_insert_le state.nodes id model.nodes.entries
    dsimp only
    omega
  | some node =>
    obtain ⟨nodes,_,_,length⟩ := @foldl_visitInput model node.inputs
      { state with nodes := state.nodes.insert id }
    have fewer := unmetInputs_insert state.nodes unmet (OrderedMap.get_eq_some_iff.mp found)
    dsimp only at nodes length ⊢
    rw [nodes]
    omega

theorem walkUpstream_closed {fuel : Nat} {state : Upstream} (closed : state.Closed model goal)
    (enough : state.worklist.length + unmetInputs state.nodes model.nodes.entries < fuel) :
    ∃ scope, walkUpstream model fuel state = some scope ∧ scope.Closed model goal := by
  induction fuel generalizing state with
  | zero => omega
  | succ fuel ih =>
    unfold walkUpstream
    cases worklist : state.worklist with
    | nil =>
      refine ⟨_,rfl,?_⟩
      unfold Scope.Closed
      rw [← worklist]
      exact closed
    | cons id rest =>
      rw [worklist,length_cons] at enough
      dsimp only
      split
      · rename_i met
        apply ih (closed.pop worklist ((contains_iff _ _).mp met))
        dsimp only
        omega
      · rename_i unmet
        rw [contains_iff] at unmet
        apply ih (closed.visit worklist)
        have fewer := @length_visitNode model id { state with worklist := rest } unmet
        dsimp only at fewer
        omega

theorem around_closed {channel : Channel} (held : model.channels.get goal = some channel) :
    ∃ scope, Scope.around model goal = some scope ∧ scope.Closed model goal := by
  have producer : model.producerOn goal = channel.producer.nodeId := by
    unfold Model.producerOn
    rw [held]
    rfl
  have start : Upstream.Closed model goal
      { worklist := channel.producer.nodeId.toList
        nodes := OrderedSet.empty
        channels := OrderedSet.empty.insert goal } := by
    refine ⟨mem_insert.mpr (.inl rfl),?_,?_,?_⟩
    · exact nofun
    · intro _ mem _ made
      have same := (mem_insert.mp mem).resolve_right not_mem_nil
      rw [same,producer] at made
      exact .inr (Option.mem_toList.mpr made)
    · intro _ known
      have listed := known.resolve_left not_mem_nil
      refine ⟨goal,mem_insert.mpr (.inl rfl),?_⟩
      rw [producer]
      exact Option.mem_toList.mp listed
  have few : channel.producer.nodeId.toList.length ≤ 1 := by
    cases channel.producer.nodeId <;> simp
  have all : unmetInputs OrderedSet.empty model.nodes.entries = model.inputCount := by
    have kept : (model.nodes.entries.filter fun pair =>
        !(OrderedSet.empty : OrderedSet NodeId).contains pair.1) = model.nodes.entries :=
      filter_eq_self.mpr fun _ _ => rfl
    unfold unmetInputs Model.inputCount
    rw [kept]
  unfold Scope.around
  rw [held]
  apply walkUpstream_closed start
  dsimp only
  omega

theorem Scope.closed_of_around {scope : Scope}
    (walked : Scope.around model goal = some scope) : scope.Closed model goal := by
  cases held : model.channels.get goal with
  | none =>
    unfold Scope.around at walked
    rw [held] at walked
    cases walked
  | some =>
    obtain ⟨_,same,closed⟩ := around_closed held
    rw [walked] at same
    cases same
    exact closed

end Walk

end Astrs.Verify
