/-
The derived rates are the sums over all routes.

A route runs backwards from a node over its inputs to a timer or to a declared source.
-/

import Mathlib.Algebra.BigOperators.Finprod
import Mathlib.Order.CompletePartialOrder
import Astrs.Graph.Cycles
import Astrs.Verify.Rates

namespace Astrs.Verify

open Astrs.Base List

/-! ### Routes -/

/-- A node that declares no input. -/
def IsSource (graph : DataflowGraph) (id : NodeId) : Prop :=
  ∃ node, graph.nodes.get id = some node ∧ node.inputs.entries.isEmpty = true

/-- A route into a node, from its last edge back, and the rate at its origin. -/
inductive Route (graph : DataflowGraph) (declared : OrderedMap NodeId Rate) :
    NodeId → List EdgeKey → ℚ → Prop where
  | source {id : NodeId} {rate : Rate} (idle : IsSource graph id)
      (held : declared.get id = some rate) : Route graph declared id [] rate.value
  | timer {key : EdgeKey} {edge : Edge} {source : Text} {rate : Rate}
      (found : graph.edges.get key = some edge)
      (producer : producerOf edge.source = .timer source rate) :
      Route graph declared key.consumer [key] rate.value
  | step {key : EdgeKey} {edge : Edge} {id : NodeId} {output : PortName} {keys : List EdgeKey}
      {rate : ℚ} (found : graph.edges.get key = some edge)
      (producer : producerOf edge.source = .node id output)
      (onward : Route graph declared id keys rate) :
      Route graph declared key.consumer (key :: keys) rate

def routes (graph : DataflowGraph) (declared : OrderedMap NodeId Rate) (id : NodeId) :
    Set (List EdgeKey × ℚ) :=
  {route | Route graph declared id route.1 route.2}

def routesVia (graph : DataflowGraph) (declared : OrderedMap NodeId Rate) (keys : List EdgeKey) :
    Set (List EdgeKey × ℚ) :=
  {route | ∃ key ∈ keys, ∃ rest, route.1 = key :: rest ∧
    Route graph declared key.consumer route.1 route.2}

def Carries (routes : Set (List EdgeKey × ℚ)) (total : ℚ) : Prop :=
  routes.Finite ∧ total = ∑ᶠ route ∈ routes, route.2

/-- The rate at which messages arrive on an input. -/
noncomputable def inflow (graph : DataflowGraph) (declared : OrderedMap NodeId Rate)
    (key : EdgeKey) : ℚ := ∑ᶠ route ∈ routesVia graph declared [key], route.2

/-- Every sum fits 64 bits before it is reduced when the inputs are added to a total in order. -/
def AddsUp (graph : DataflowGraph) (declared : OrderedMap NodeId Rate) :
    ℚ → List EdgeKey → Prop
  | _,[] => True
  | total,key :: keys => Rate.Addable total (inflow graph declared key) ∧
    AddsUp graph declared (total + inflow graph declared key) keys

theorem carries_empty : Carries ∅ 0 := ⟨Set.finite_empty,finsum_mem_empty.symm⟩

theorem carries_singleton (route : List EdgeKey × ℚ) : Carries {route} route.2 :=
  ⟨Set.finite_singleton route,finsum_mem_singleton.symm⟩

theorem Carries.union {left right : Set (List EdgeKey × ℚ)} {leftTotal rightTotal : ℚ}
    (carriesLeft : Carries left leftTotal) (carriesRight : Carries right rightTotal)
    (apart : Disjoint left right) : Carries (left ∪ right) (leftTotal + rightTotal) := by
  refine ⟨carriesLeft.1.union carriesRight.1,?_⟩
  rw [finsum_mem_union apart carriesLeft.1 carriesRight.1,← carriesLeft.2,← carriesRight.2]

theorem Carries.extended {routes : Set (List EdgeKey × ℚ)} {total : ℚ}
    (carries : Carries routes total) (key : EdgeKey) :
    Carries ((fun route : List EdgeKey × ℚ => (key :: route.1,route.2)) '' routes) total := by
  have injective : Set.InjOn (fun route : List EdgeKey × ℚ => (key :: route.1,route.2)) routes := by
    intro _ _ _ _ same
    have parts := Prod.ext_iff.mp same
    exact Prod.ext (List.cons.inj parts.1).2 parts.2
  refine ⟨carries.1.image _,?_⟩
  rw [finsum_mem_image injective]
  exact carries.2

variable {graph : DataflowGraph} {given : OrderedMap NodeId Rate} {key : EdgeKey}

section Via

theorem routesVia_nil : routesVia graph given [] = ∅ := by
  ext route
  simp [routesVia]

theorem routesVia_append (left right : List EdgeKey) : routesVia graph given (left ++ right) =
      routesVia graph given left ∪ routesVia graph given right := by
  ext route
  simp only [routesVia,Set.mem_ofPred_eq,Set.mem_union,mem_append,or_and_right,exists_or]

theorem routesVia_disjoint {keys : List EdgeKey} (fresh : key ∉ keys) :
    Disjoint (routesVia graph given keys) (routesVia graph given [key]) := by
  rw [Set.disjoint_left]
  rintro route ⟨_,mem,_,starts,_⟩ ⟨_,only,_,begins,_⟩
  rw [starts] at begins
  have same := (List.cons.inj begins).1
  rw [same,mem_singleton.mp only] at mem
  exact fresh mem

variable {id : NodeId} {edge : Edge} {rest : List EdgeKey}

theorem route_cons (found : graph.edges.get key = some edge)
    {rate : ℚ} (route : Route graph given id (key :: rest) rate) :
    (∃ source origin, producerOf edge.source = .timer source origin ∧ rest = [] ∧
        rate = origin.value) ∨
      ∃ producer output, producerOf edge.source = .node producer output ∧
        Route graph given producer rest rate := by
  cases route with
  | timer same producer =>
    cases found.symm.trans same
    exact .inl ⟨_,_,producer,rfl,rfl⟩
  | step same producer onward =>
    cases found.symm.trans same
    exact .inr ⟨_,_,producer,onward⟩

theorem route_into {rate : ℚ}
    (route : Route graph given id (key :: rest) rate) : key ∈ graph.edgesInto id := by
  cases route with
  | timer found _ | step found _ _ => exact DataflowGraph.mem_edgesInto.mpr ⟨⟨_,found⟩,rfl⟩

theorem routesVia_timer {source : Text} {rate : Rate} (found : graph.edges.get key = some edge)
    (producer : producerOf edge.source = .timer source rate) :
    routesVia graph given [key] = {([key],rate.value)} := by
  ext ⟨keys,origin⟩
  constructor
  · rintro ⟨_,only,_,starts,route⟩
    rw [mem_singleton] at only
    dsimp only at starts route
    rw [starts,only] at route ⊢
    rcases route_cons found route with ⟨_,_,made,ends,value⟩ | ⟨_,_,made,_⟩
    · rw [producer] at made
      cases made
      rw [ends,value]
      exact Set.mem_singleton _
    · rw [producer] at made
      cases made
  · intro same
    rw [same]
    exact ⟨key,mem_singleton_self key,[],rfl,.timer found producer⟩

theorem routesVia_node {output : PortName} (found : graph.edges.get key = some edge)
    (producer : producerOf edge.source = .node id output) :
    routesVia graph given [key] =
      (fun route : List EdgeKey × ℚ => (key :: route.1,route.2)) '' routes graph given id := by
  ext ⟨keys,origin⟩
  constructor
  · rintro ⟨_,only,rest,starts,route⟩
    rw [mem_singleton] at only
    dsimp only at starts route
    rw [starts,only] at route ⊢
    rcases route_cons found route with ⟨_,_,made,_⟩ | ⟨_,_,made,onward⟩
    · rw [producer] at made
      cases made
    · rw [producer] at made
      cases made
      exact ⟨(rest,origin),onward,rfl⟩
  · rintro ⟨⟨rest,_⟩,onward,same⟩
    cases same
    exact ⟨key,mem_singleton_self key,rest,rfl,.step found producer onward⟩

theorem routes_of_edges (fed : ¬ IsSource graph id) :
    routes graph given id = routesVia graph given (graph.edgesInto id) := by
  ext ⟨keys,rate⟩
  constructor
  · intro route
    cases keys with
    | nil =>
      cases route with
      | source idle => exact absurd idle fed
    | cons key rest =>
      have mem := route_into route
      refine ⟨key,mem,rest,rfl,?_⟩
      rw [(DataflowGraph.mem_edgesInto.mp mem).2]
      exact route
  · rintro ⟨_,mem,_,_,route⟩
    rw [(DataflowGraph.mem_edgesInto.mp mem).2] at route
    exact route

theorem routes_of_source {rate : Rate} (idle : IsSource graph id)
    (unfed : graph.edgesInto id = []) (held : given.get id = some rate) :
    routes graph given id = {([],rate.value)} := by
  ext ⟨keys,origin⟩
  constructor
  · intro route
    cases keys with
    | nil =>
      cases route with
      | source _ same =>
        rw [held] at same
        cases same
        exact Set.mem_singleton _
    | cons =>
      have mem := route_into route
      rw [unfed] at mem
      cases mem
  · intro same
    cases same
    exact .source idle held

end Via

/-! ### What one look at a node concludes -/

def Arrives (channels : OrderedMap EdgeKey Channel) (derived : DerivedRates) (key : EdgeKey)
    (rate : Rate) : Prop :=
  (channels.get key).bind derived.arrivalRate = some rate

def addAll : Rate → List Rate → Option Rate := List.foldlM Rate.checkedAdd

/-- Some of the arrival rates on the inputs do not add up in 64 bits. -/
def Overflows (channels : OrderedMap EdgeKey Channel) (derived : DerivedRates) (total : Rate)
    (keys : List EdgeKey) : Prop :=
  ∃ read rates, List.Sublist read keys ∧ List.Forall₂ (Arrives channels derived) read rates ∧
    addAll total rates = none

variable {derived : DerivedRates} {rate : Rate}

section Settle

variable {channels : OrderedMap EdgeKey Channel} {sum : Rate} {channel : Channel}
  {reason : Indeterminate} {pending : Bool}

theorem overflows_of_none {total : Rate} (keys : List EdgeKey)
    (arrives : Arrives channels derived key rate) (full : total.checkedAdd rate = none) :
    Overflows channels derived total (key :: keys) := by
  refine ⟨[key],[rate],singleton_sublist.mpr mem_cons_self,.cons arrives .nil,?_⟩
  unfold addAll
  rw [List.foldlM_cons,full]
  rfl

variable {keys : List EdgeKey}

theorem Overflows.cons {total : Rate} (arrives : Arrives channels derived key rate)
    (added : total.checkedAdd rate = some sum) (overflows : Overflows channels derived sum keys) :
    Overflows channels derived total (key :: keys) := by
  obtain ⟨read,rates,among,arriving,full⟩ := overflows
  refine ⟨key :: read,rate :: rates,among.cons_cons key,.cons arrives arriving,?_⟩
  unfold addAll at full ⊢
  rw [List.foldlM_cons,added]
  exact full

variable {total : Rate}

theorem Overflows.skip (key : EdgeKey) (overflows : Overflows channels derived total keys) :
    Overflows channels derived total (key :: keys) := by
  obtain ⟨read,rates,among,rest⟩ := overflows
  exact ⟨read,rates,among.cons key,rest⟩

theorem arrives_timer {source : Text}
    (held : channels.get key = some channel) (producer : channel.producer = .timer source rate) :
    Arrives channels derived key rate := by
  unfold Arrives DerivedRates.arrivalRate
  rw [held,Option.bind_some,producer]

theorem arrives_node {node : NodeId} {output : PortName}
    (held : channels.get key = some channel) (producer : channel.producer = .node node output)
    (known : derived.rateOf node = some rate) : Arrives channels derived key rate := by
  unfold Arrives DerivedRates.arrivalRate
  rw [held,Option.bind_some,producer]
  exact known

/-- Why a look ends without a rate. -/
inductive Stops (channels : OrderedMap EdgeKey Channel) (derived : DerivedRates) (total : Rate)
    (keys : List EdgeKey) : Indeterminate → Prop where
  | aperiodic {key : EdgeKey} {channel : Channel} {source : Text} (member : key ∈ keys)
      (held : channels.get key = some channel) (producer : channel.producer = .aperiodic source) :
      Stops channels derived total keys .aperiodicSource
  | upstream {key : EdgeKey} {channel : Channel} {node : NodeId} {output : PortName}
      (member : key ∈ keys) (held : channels.get key = some channel)
      (producer : channel.producer = .node node output)
      (stuck : (derived.reason node).isSome = true) :
      Stops channels derived total keys .upstreamIndeterminate
  | overflow (overflows : Overflows channels derived total keys) :
      Stops channels derived total keys .rateOverflow

theorem Stops.later
    (stops : Stops channels derived sum keys reason) (full : Overflows channels derived sum keys →
      Overflows channels derived total (key :: keys)) :
    Stops channels derived total (key :: keys) reason := by
  cases stops with
  | aperiodic mem held producer =>
    exact .aperiodic (mem_cons_of_mem key mem) held producer
  | upstream mem held producer stuck =>
    exact .upstream (mem_cons_of_mem key mem) held producer stuck
  | overflow overflows => exact .overflow (full overflows)

theorem settleFrom_indeterminate
    (result : settleFrom channels derived keys total pending = .indeterminate reason) :
    Stops channels derived total keys reason := by
  fun_induction settleFrom channels derived keys total pending with
  | case1 | case2 => cases result
  | case4 key keys total _ channel held source producer =>
    cases result
    exact .aperiodic mem_cons_self held producer
  | case5 key keys total pending channel held source rate producer sum added ih =>
    exact (ih result).later (.cons (arrives_timer held producer) added)
  | case6 key keys total _ channel held source rate producer full =>
    cases result
    exact .overflow (overflows_of_none keys (arrives_timer held producer) full)
  | case7 key keys total _ channel held node output producer stuck =>
    cases result
    exact .upstream mem_cons_self held producer stuck
  | case8 key keys total pending channel held node output producer _ rate known sum added ih =>
    exact (ih result).later (.cons (arrives_node held producer known) added)
  | case9 key keys total _ channel held node output producer _ rate known full =>
    cases result
    exact .overflow (overflows_of_none keys (arrives_node held producer known) full)
  | case3 key _ _ _ _ ih | case10 key _ _ _ _ _ _ _ _ _ _ ih =>
    exact (ih result).later (.skip key)

/-- A look that has to wait has an input from a node not settled yet. -/
theorem settleFrom_pending (result : settleFrom channels derived keys total pending = .pending) :
    pending = true ∨ ∃ key ∈ keys, ∃ channel node output, channels.get key = some channel ∧
      channel.producer = .node node output ∧ derived.isSettled node = false := by
  have later : ∀ {key : EdgeKey} {keys : List EdgeKey} {waits : Prop},
      (waits ∨ ∃ key ∈ keys, ∃ channel node output, channels.get key = some channel ∧
        channel.producer = .node node output ∧ derived.isSettled node = false) →
      waits ∨ ∃ other ∈ key :: keys, ∃ channel node output, channels.get other = some channel ∧
        channel.producer = .node node output ∧ derived.isSettled node = false := by
    rintro key keys waits (already | ⟨other,mem,rest⟩)
    · exact .inl already
    · exact .inr ⟨other,mem_cons_of_mem key mem,rest⟩
  fun_induction settleFrom channels derived keys total pending with
  | case1 _ => exact .inl rfl
  | case2 | case4 | case6 | case7 | case9 => cases result
  | case3 _ _ _ _ _ ih | case5 _ _ _ _ _ _ _ _ _ _ _ ih
  | case8 _ _ _ _ _ _ _ _ _ _ _ _ _ _ ih => exact later (ih result)
  | case10 key keys total pending channel held node output producer free unknown _ =>
    refine .inr ⟨key,mem_cons_self,channel,node,output,held,producer,?_⟩
    unfold DerivedRates.isSettled
    rw [unknown,Bool.eq_false_iff.mpr free]
    rfl

theorem settleFrom_rate (wired : ∀ key ∈ keys, (channels.get key).isSome = true)
    (result : settleFrom channels derived keys total pending = .rate rate) :
    pending = false ∧
      ∃ rates, List.Forall₂ (Arrives channels derived) keys rates ∧
        addAll total rates = some rate := by
  have added : ∀ {key : EdgeKey} {keys : List EdgeKey} {total arriving sum : Rate} {idle : Prop},
      Arrives channels derived key arriving → total.checkedAdd arriving = some sum →
      (idle ∧ ∃ rates, List.Forall₂ (Arrives channels derived) keys rates ∧
        addAll sum rates = some rate) →
      idle ∧ ∃ rates, List.Forall₂ (Arrives channels derived) (key :: keys) rates ∧
        addAll total rates = some rate := by
    rintro key keys total arriving sum idle arrives added ⟨waits,rates,arriveAll,totals⟩
    refine ⟨waits,arriving :: rates,.cons arrives arriveAll,?_⟩
    unfold addAll at totals ⊢
    rw [List.foldlM_cons,added]
    exact totals
  fun_induction settleFrom channels derived keys total pending with
  | case1 | case4 | case6 | case7 | case9 => cases result
  | case2 total pending idle =>
    cases result
    exact ⟨Bool.eq_false_iff.mpr idle,[],.nil,rfl⟩
  | case3 key keys total pending unwired _ =>
    have held := wired key mem_cons_self
    rw [unwired] at held
    cases held
  | case5 key keys total pending channel held source rate producer sum fits ih =>
    exact added (arrives_timer held producer) fits
      (ih (fun other mem => wired other (mem_cons_of_mem key mem)) result)
  | case8 key keys total pending channel held node output producer _ rate known sum fits ih =>
    exact added (arrives_node held producer known) fits
      (ih (fun other mem => wired other (mem_cons_of_mem key mem)) result)
  | case10 key keys total pending _ _ _ _ _ _ _ ih =>
    cases (ih (fun other mem => wired other (mem_cons_of_mem key mem)) result).1

end Settle

section Totals

theorem arrives_fromGraph : Arrives (Model.fromGraph graph).channels derived key rate ↔
      ∃ edge, graph.edges.get key = some edge ∧
        derived.arrivalRate (Channel.fromEdge edge) = some rate := by
  unfold Arrives
  rw [Option.bind_eq_some_iff]
  constructor
  · rintro ⟨_,held,arriving⟩
    obtain ⟨edge,found,rfl⟩ := fromGraph_channel.mp held
    exact ⟨edge,found,arriving⟩
  · rintro ⟨edge,found,arriving⟩
    exact ⟨_,fromGraph_channel.mpr ⟨edge,found,rfl⟩,arriving⟩

variable (rated : ∀ node rate, derived.rateOf node = some rate →
  Carries (routes graph given node) rate.value)
include rated

theorem carries_arrival (arrives : Arrives (Model.fromGraph graph).channels derived key rate) :
    Carries (routesVia graph given [key]) rate.value := by
  obtain ⟨edge,found,arriving⟩ := arrives_fromGraph.mp arrives
  unfold DerivedRates.arrivalRate Channel.fromEdge at arriving
  dsimp only at arriving
  cases producer : producerOf edge.source with
  | node node output =>
    rw [producer] at arriving
    rw [routesVia_node found producer]
    exact (rated node rate arriving).extended key
  | timer source origin =>
    rw [producer] at arriving
    cases arriving
    rw [routesVia_timer found producer]
    exact carries_singleton _
  | aperiodic source =>
    rw [producer] at arriving
    cases arriving

/-- The rates that arrive add up exactly if every sum on the way does. -/
theorem addAll_isSome_iff {keys : List EdgeKey} {rates : List Rate} {total : Rate}
    (arrives : List.Forall₂ (Arrives (Model.fromGraph graph).channels derived) keys rates) :
    (addAll total rates).isSome = true ↔ AddsUp graph given total.value keys := by
  induction arrives generalizing total with
  | nil => exact iff_of_true rfl trivial
  | @cons key rate keys rates first _ ih =>
    have same : rate.value = inflow graph given key := (carries_arrival rated first).2
    unfold addAll AddsUp
    rw [List.foldlM_cons,← same,← Rate.checkedAdd_isSome_iff]
    cases added : total.checkedAdd rate with
    | none => exact iff_of_false nofun fun both => nomatch both.1
    | some sum =>
      rw [← Rate.value_checkedAdd added,Option.isSome_some,and_iff_right rfl]
      exact ih

theorem carries_addAll {keys : List EdgeKey} {rates : List Rate}
    (arrives : List.Forall₂ (Arrives (Model.fromGraph graph).channels derived) keys rates)
    {done : List EdgeKey} {total sum : Rate} (distinct : (done ++ keys).Nodup)
    (carries : Carries (routesVia graph given done) total.value)
    (added : addAll total rates = some sum) :
    Carries (routesVia graph given (done ++ keys)) sum.value := by
  induction arrives generalizing done total with
  | nil =>
    cases added
    rw [append_nil]
    exact carries
  | @cons key rate keys rates first _ ih =>
    unfold addAll at added
    obtain ⟨_,fits,remaining⟩ := Option.bind_eq_some_iff.mp added
    have shifted : done ++ key :: keys = (done ++ [key]) ++ keys := by
      rw [append_assoc,singleton_append]
    have fresh : key ∉ done := by
      intro mem
      exact (nodup_append.mp distinct).2.2 key mem key mem_cons_self rfl
    rw [shifted] at distinct ⊢
    apply ih distinct _ remaining
    rw [routesVia_append,Rate.value_checkedAdd fits]
    exact carries.union (carries_arrival rated first) (routesVia_disjoint fresh)

end Totals

end Astrs.Verify
