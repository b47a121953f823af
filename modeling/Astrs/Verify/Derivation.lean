/-
Which nodes get a rate.

Each step keeps that a node with a rate has its producers rated and its routes summed, and
that a node without one is fed by a node that blocks or overflows.
-/

import Astrs.Verify.Flow

namespace Astrs.Verify

open Astrs.Base Astrs.Graph List DerivedRates Model DataflowGraph OrderedMap
open OrderedMap (get_eq_some_iff)

/-! ### Feedback cycles -/

def OnCycle (graph : DataflowGraph) (id : NodeId) : Prop := Relation.TransGen (Leads graph) id id

theorem mem_addComponent (id : NodeId) (set : OrderedSet NodeId) (scc : List NodeId) :
    id ∈ (addComponent set scc).elems ↔ id ∈ set.elems ∨ 1 < scc.length ∧ id ∈ scc := by
  unfold addComponent
  split
  · rename_i several
    rw [@foldl_or_iff _ _ OrderedSet.insert (id ∈ ·.elems) (id = ·)
      fun _ _ => OrderedSet.mem_insert.trans or_comm]
    simp only [several,true_and,exists_eq_right']
  · rename_i single
    simp only [single,false_and,or_false]

theorem mem_addSelfLoop (id : NodeId) (set : OrderedSet NodeId) (pair : EdgeKey × Edge) :
    id ∈ (addSelfLoop set pair).elems ↔ id ∈ set.elems ∨
      pair.1.consumer = id ∧ pair.2.source.producerNode = some id := by
  unfold addSelfLoop
  split
  · rename_i loops
    rw [OrderedSet.mem_insert,or_comm]
    refine or_congr_right ⟨?_,fun own => own.1.symm⟩
    rintro rfl
    exact ⟨rfl,loops⟩
  · rename_i straight
    refine (or_iff_left ?_).symm
    rintro ⟨rfl,loops⟩
    exact straight loops

variable {graph : DataflowGraph} {id : NodeId} {derived : DerivedRates}

theorem leads_self_iff :
    Leads graph id id ↔ ∃ pair ∈ graph.edges.entries, pair.1.consumer = id ∧
      pair.2.source.producerNode = some id := by
  constructor
  · rintro ⟨key,edge,found,made,used⟩
    exact ⟨(key,edge),get_eq_some_iff.mp found,used,made⟩
  · rintro ⟨⟨key,edge⟩,listed,used,made⟩
    exact ⟨key,edge,get_eq_some_iff.mpr listed,made,used⟩

theorem OnCycle.known (wired : Wired graph) (cycle : OnCycle graph id) : id ∈ nodeIds graph := by
  obtain ⟨_,_,key,edge,found,_,used⟩ := Relation.TransGen.tail'_iff.mp cycle
  rw [← used]
  exact wired key edge found

theorem mem_cyclicNodes (wired : Wired graph) :
    id ∈ (cyclicNodes graph).elems ↔ OnCycle graph id := by
  obtain ⟨_,computed,exact⟩ := computeSccs_exact wired
  unfold cyclicNodes
  rw [computed,Option.getD_some,
    @foldl_or_iff _ _ addSelfLoop (id ∈ ·.elems) _ (mem_addSelfLoop id),
    @foldl_or_iff _ _ addComponent (id ∈ ·.elems) _ (mem_addComponent id),← leads_self_iff]
  simp only [OrderedSet.elems_empty,not_mem_nil,false_or]
  constructor
  · rintro (⟨scc,mem,_,inside⟩ | loops)
    · have distinct : scc.Nodup := (exact.sorted scc mem).imp ne_of_lt
      obtain ⟨other,otherInside,apart⟩ : ∃ other ∈ scc, other ≠ id := by
        by_contra all
        push Not at all
        have short := distinct.length_le_of_subset
          (fun other otherInside => mem_singleton.mpr (all other otherInside))
        rw [length_singleton] at short
        omega
      obtain ⟨forth,back⟩ := (mem_component_iff wired exact mem inside other).mp otherInside
      have onward : Relation.TransGen (Leads graph) id other :=
        (Relation.reflTransGen_iff_eq_or_transGen.mp forth).resolve_left apart
      exact onward.trans_left back
    · exact .single loops
  · intro cycle
    obtain ⟨next,leads,back⟩ := Relation.TransGen.head'_iff.mp cycle
    by_cases same : next = id
    · rw [same] at leads
      exact .inr leads
    · obtain ⟨scc,mem,inside⟩ := (exact.covers id).mp (cycle.known wired)
      have nextInside : next ∈ scc :=
        (mem_component_iff wired exact mem inside next).mpr ⟨.single leads,back⟩
      refine .inl ⟨scc,mem,?_,inside⟩
      by_contra short
      have few : scc.length ≤ 1 := Nat.not_lt.mp short
      obtain ⟨_,single⟩ := length_eq_one_iff.mp (le_antisymm few (length_pos_of_mem inside))
      rw [single,mem_singleton] at inside nextInside
      exact same (nextInside.trans inside.symm)

/-- Everything settled before is settled alike after. -/
structure Grows (before after : DerivedRates) : Prop where
  rates : ∀ id rate, before.rateOf id = some rate → after.rateOf id = some rate
  reasons : ∀ id reason, before.reason id = some reason → after.reason id = some reason

theorem Grows.refl (derived : DerivedRates) : Grows derived derived :=
  ⟨fun _ _ known => known,fun _ _ known => known⟩

theorem Grows.trans {first second third : DerivedRates} (early : Grows first second)
    (late : Grows second third) : Grows first third :=
  ⟨fun id rate known => late.rates id rate (early.rates id rate known),
    fun id reason known => late.reasons id reason (early.reasons id reason known)⟩

theorem isSettled_iff : derived.isSettled id = true ↔
      (∃ rate, derived.rateOf id = some rate) ∨ ∃ reason, derived.reason id = some reason := by
  unfold isSettled
  rw [Bool.or_eq_true,Option.isSome_iff_exists,Option.isSome_iff_exists]

theorem not_isSettled_iff :
    derived.isSettled id = false ↔ derived.rateOf id = none ∧ derived.reason id = none := by
  unfold isSettled
  rw [Bool.or_eq_false_iff,Option.isSome_eq_false_iff,Option.isSome_eq_false_iff,
    Option.isNone_iff_eq_none,Option.isNone_iff_eq_none]

theorem Grows.settled {before after : DerivedRates} (grows : Grows before after)
    (settled : before.isSettled id = true) : after.isSettled id = true := by
  rw [isSettled_iff] at settled ⊢
  cases settled with
  | inl rated =>
    obtain ⟨rate,known⟩ := rated
    exact .inl ⟨rate,grows.rates id rate known⟩
  | inr stuck =>
    obtain ⟨reason,known⟩ := stuck
    exact .inr ⟨reason,grows.reasons id reason known⟩

/-- A loop whose every step settles a node, or need not. -/
theorem foldl_settles {ι : Type} {items : List ι} {step : DerivedRates → ι → DerivedRates}
    {holds : DerivedRates → Prop} {due : ι → Prop} {node : ι → NodeId}
    (steps : ∀ derived, ∀ item ∈ items, holds derived → holds (step derived item) ∧
      Grows derived (step derived item) ∧
        (due item → (step derived item).isSettled (node item) = true)) (start : holds derived) :
    holds (items.foldl step derived) ∧ Grows derived (items.foldl step derived) ∧
      ∀ item ∈ items, due item → (items.foldl step derived).isSettled (node item) = true := by
  induction items generalizing derived with
  | nil => exact ⟨start,Grows.refl _,forall_mem_nil _⟩
  | cons item items ih =>
    obtain ⟨first,later⟩ := forall_mem_cons.mp fun other mem derived => steps derived other mem
    obtain ⟨after,grows,settled⟩ := first derived start
    obtain ⟨last,further,others⟩ := ih (fun derived other mem => later other mem derived) after
    refine ⟨last,grows.trans further,forall_mem_cons.mpr ⟨fun needed => ?_,others⟩⟩
    exact further.settled (settled needed)

section Insert

variable {rate : Rate} {reason : Indeterminate}

theorem rateOf_withRate (rate : Rate) (other : NodeId) : (derived.withRate id rate).rateOf other =
      if id = other then some rate else derived.rateOf other := by
  change (derived.rates.insert id rate).get other = _
  rw [get_insert]
  congr

theorem reason_withReason (reason : Indeterminate) (other : NodeId) :
    (derived.withReason id reason).reason other =
      if id = other then some reason else derived.reason other := by
  change (derived.indeterminate.insert id reason).get other = _
  rw [get_insert]
  congr

theorem settled_withRate : (derived.withRate id rate).isSettled id = true := by
  rw [isSettled_iff,rateOf_withRate,if_pos rfl]
  exact .inl ⟨rate,rfl⟩

theorem settled_withReason : (derived.withReason id reason).isSettled id = true := by
  rw [isSettled_iff,reason_withReason,if_pos rfl]
  exact .inr ⟨reason,rfl⟩

theorem grows_withRate (fresh : ∀ old, derived.rateOf id = some old → old = rate) :
    Grows derived (derived.withRate id rate) := by
  refine ⟨fun other known held => ?_,fun _ _ held => held⟩
  rw [rateOf_withRate]
  split
  · rename_i same
    rw [← same] at held
    rw [fresh known held]
  · exact held

theorem grows_withReason (fresh : derived.reason id = none) :
    Grows derived (derived.withReason id reason) := by
  refine ⟨fun _ _ held => held,fun other known held => ?_⟩
  rw [reason_withReason]
  split
  · rename_i same
    rw [← same,fresh] at held
    cases held
  · exact held

end Insert

/-- A node that can have no rate, whatever the rates before it. -/
inductive Blocked (graph : DataflowGraph) (declared : OrderedMap NodeId Rate) (id : NodeId) :
    Prop where
  | missing (absent : id ∉ nodeIds graph)
  | cycle (circle : OnCycle graph id)
  | undeclared (source : IsSource graph id) (silent : declared.get id = none)
  | aperiodic {key : EdgeKey} {edge : Edge} {source : Text}
      (found : graph.edges.get key = some edge) (consumer : key.consumer = id)
      (producer : producerOf edge.source = .aperiodic source)

/-- A rate with what it rests on. -/
structure Rated (graph : DataflowGraph) (declared : OrderedMap NodeId Rate)
    (derived : DerivedRates) (id : NodeId) (rate : Rate) : Prop where
  free : ¬ Blocked graph declared id
  before : ∀ producer, Leads graph producer id → ∃ rate, derived.rateOf producer = some rate
  carries : Carries (routes graph declared id) rate.value
  adds : AddsUp graph declared 0 (graph.edgesInto id)

def Stuck (graph : DataflowGraph) (declared : OrderedMap NodeId Rate) (derived : DerivedRates)
    (id : NodeId) : Prop :=
  ∃ ancestor, Graph.Path graph ancestor id ∧
    (Blocked graph declared ancestor ∨ derived.reason ancestor = some .rateOverflow)

def Overfull (graph : DataflowGraph) (derived : DerivedRates) (id : NodeId) : Prop :=
  Overflows (fromGraph graph).channels derived Rate.zero (graph.edgesInto id)

structure Sound (graph : DataflowGraph) (declared : OrderedMap NodeId Rate)
    (derived : DerivedRates) : Prop where
  apart : ∀ id, derived.rateOf id = none ∨ derived.reason id = none
  rated : ∀ id rate, derived.rateOf id = some rate → Rated graph declared derived id rate
  stuck : ∀ id reason, derived.reason id = some reason → Stuck graph declared derived id
  overfull : ∀ id, derived.reason id = some .rateOverflow → Overfull graph derived id

variable {given : OrderedMap NodeId Rate}

theorem Sound.carries (sound : Sound graph given derived) (id : NodeId) (rate : Rate)
    (held : derived.rateOf id = some rate) : Carries (routes graph given id) rate.value :=
  (sound.rated id rate held).carries

section Growth

variable {before after : DerivedRates} {rate : Rate}

theorem Rated.mono (rated : Rated graph given before id rate)
    (grows : Grows before after) : Rated graph given after id rate := by
  refine ⟨rated.free,fun producer leads => ?_,rated.carries,rated.adds⟩
  obtain ⟨known,held⟩ := rated.before producer leads
  exact ⟨known,grows.rates producer known held⟩

theorem Stuck.mono (stuck : Stuck graph given before id) (grows : Grows before after) :
    Stuck graph given after id := by
  obtain ⟨ancestor,path,cause⟩ := stuck
  exact ⟨ancestor,path,cause.imp_right (grows.reasons ancestor _)⟩

theorem Overfull.mono (overfull : Overfull graph before id) (grows : Grows before after) :
    Overfull graph after id := by
  obtain ⟨read,rates,among,arrives,full⟩ := overfull
  refine ⟨read,rates,among,arrives.imp fun key rate arrival => ?_,full⟩
  obtain ⟨edge,found,arriving⟩ := arrives_fromGraph.mp arrival
  apply arrives_fromGraph.mpr
  refine ⟨edge,found,?_⟩
  unfold arrivalRate at arriving ⊢
  split at arriving
  · exact arriving
  · cases arriving
  · exact grows.rates _ _ arriving

theorem Stuck.of_upstream {producer : NodeId} (stuck : Stuck graph given derived producer)
    (leads : Leads graph producer id) : Stuck graph given derived id := by
  obtain ⟨ancestor,path,cause⟩ := stuck
  exact ⟨ancestor,path.tail leads,cause⟩

theorem Sound.withRate (sound : Sound graph given derived)
    (unstuck : derived.reason id = none) (fresh : ∀ old, derived.rateOf id = some old → old = rate)
    (rated : Rated graph given derived id rate) :
    Sound graph given (derived.withRate id rate) := by
  have grows := grows_withRate fresh
  constructor
  · intro other
    rw [rateOf_withRate]
    split
    · rename_i same
      rw [← same]
      exact .inr unstuck
    · exact sound.apart other
  · intro other known held
    rw [rateOf_withRate] at held
    split at held
    · rename_i same
      cases held
      rw [← same]
      exact rated.mono grows
    · exact (sound.rated other known held).mono grows
  · intro other reason held
    exact (sound.stuck other reason held).mono grows
  · intro other held
    exact (sound.overfull other held).mono grows

theorem Sound.withReason (sound : Sound graph given derived) {reason : Indeterminate}
    (unsettled : derived.isSettled id = false)
    (cause : Stuck graph given derived id ∨ reason = .rateOverflow)
    (full : reason = .rateOverflow → Overfull graph derived id) :
    Sound graph given (derived.withReason id reason) := by
  obtain ⟨unrated,unstuck⟩ := not_isSettled_iff.mp unsettled
  have grows : Grows derived (derived.withReason id reason) := grows_withReason unstuck
  constructor
  · intro other
    rw [reason_withReason]
    split
    · rename_i same
      rw [← same]
      exact .inl unrated
    · exact sound.apart other
  · intro other known held
    exact (sound.rated other known held).mono grows
  · intro other known held
    rw [reason_withReason] at held
    split at held
    · rename_i same
      rw [← same]
      cases cause with
      | inl stuck => exact stuck.mono grows
      | inr overflow =>
        refine ⟨id,.refl,.inr ?_⟩
        rw [reason_withReason,if_pos rfl,overflow]
    · exact (sound.stuck other known held).mono grows
  · intro other held
    rw [reason_withReason] at held
    split at held
    · rename_i same
      cases held
      rw [← same]
      exact (full rfl).mono grows
    · exact (sound.overfull other held).mono grows

end Growth

/-! ### Cycles and sources -/

/-- A node that declares no input is fed by no edge. -/
def PortsWired (graph : DataflowGraph) : Prop := ∀ id, IsSource graph id → graph.edgesInto id = []

section Start

theorem reason_markCyclic (id : NodeId) : (markCyclic graph).reason id =
      if id ∈ (cyclicNodes graph).elems then some .feedbackCycle else none := by
  unfold markCyclic
  rw [foldl_reads reason fun _ => .feedbackCycle]
  · congr
  · intro _ _ other
    rw [reason_withReason]
    congr

theorem rateOf_markCyclic (id : NodeId) : (markCyclic graph).rateOf id = none :=
  (foldl_unchanged (fun derived id => withReason derived id .feedbackCycle)
    (fun derived => rateOf derived id = none) (fun _ _ => Iff.rfl) _ _).mpr rfl

/-- While the sources are visited every rate is a declared one. -/
structure Seeded (graph : DataflowGraph) (declared : OrderedMap NodeId Rate)
    (derived : DerivedRates) : Prop where
  sound : Sound graph declared derived
  grows : Grows (markCyclic graph) derived
  declared : ∀ id rate, derived.rateOf id = some rate → declared.get id = some rate

variable (wired : Wired graph)
include wired

theorem sound_markCyclic : Sound graph given (markCyclic graph) := by
  constructor
  · intro id
    exact .inl (rateOf_markCyclic id)
  · intro _ _ held
    rw [rateOf_markCyclic] at held
    cases held
  · intro id _ held
    rw [reason_markCyclic] at held
    split at held
    · rename_i mem
      exact ⟨id,.refl,.inl (.cycle ((mem_cyclicNodes wired).mp mem))⟩
    · cases held
  · intro _ held
    rw [reason_markCyclic] at held
    split at held <;> cases held

theorem OnCycle.has_reason (cycle : OnCycle graph id)
    (grows : Grows (markCyclic graph) derived) : derived.reason id = some .feedbackCycle := by
  apply grows.reasons
  rw [reason_markCyclic,if_pos ((mem_cyclicNodes wired).mpr cycle)]

theorem seeded_markCyclic : Seeded graph given (markCyclic graph) := by
  refine ⟨sound_markCyclic wired,Grows.refl _,fun id rate held => ?_⟩
  rw [rateOf_markCyclic] at held
  cases held

theorem rated_source (grows : Grows (markCyclic graph) derived) {rate : Rate}
    (known : id ∈ nodeIds graph) (free : derived.reason id = none) (source : IsSource graph id)
    (idle : graph.edgesInto id = []) (held : given.get id = some rate) :
    Rated graph given derived id rate := by
  have unfed : ∀ {key edge}, graph.edges.get key = some edge → key.consumer ≠ id := by
    intro _ edge found consumer
    have mem := mem_edgesInto.mpr ⟨⟨edge,found⟩,consumer⟩
    rw [idle] at mem
    cases mem
  constructor
  · intro blocked
    cases blocked with
    | missing absent => exact absent known
    | cycle circle =>
      rw [circle.has_reason wired grows] at free
      cases free
    | undeclared _ silent =>
      rw [held] at silent
      cases silent
    | aperiodic found consumer => exact unfed found consumer
  · rintro producer ⟨_,_,found,_,used⟩
    exact absurd used (unfed found)
  · rw [routes_of_source source idle held]
    exact carries_singleton _
  · rw [idle]
    trivial

variable (ports : PortsWired graph)
include ports

theorem Seeded.seed (seeded : Seeded graph given derived) {pair : NodeId × GraphNode}
    (listed : pair ∈ graph.nodes.entries) :
    Seeded graph given (seed given derived pair) ∧
      Grows derived (seed given derived pair) ∧
      (pair.2.inputs.entries.isEmpty = true →
        (seed given derived pair).isSettled pair.1 = true) := by
  have found : graph.nodes.get pair.1 = some pair.2 := get_eq_some_iff.mpr listed
  have known : pair.1 ∈ nodeIds graph := mem_nodeIds.mpr (by rw [found]; rfl)
  unfold Verify.seed
  split
  · rename_i stuck
    refine ⟨seeded,Grows.refl _,fun _ => ?_⟩
    unfold isSettled
    rw [stuck,Bool.or_true]
  · rename_i unstuck
    have free : derived.reason pair.1 = none := by
      rw [Bool.not_eq_true,Option.isSome_eq_false_iff,Option.isNone_iff_eq_none] at unstuck
      exact unstuck
    split
    · rename_i idle
      have source : IsSource graph pair.1 := ⟨pair.2,found,idle⟩
      split
      · rename_i rate held
        have fresh : ∀ old, derived.rateOf pair.1 = some old → old = rate := by
          intro old known
          have same := seeded.declared pair.1 old known
          rw [held] at same
          exact (Option.some.inj same).symm
        have grows := grows_withRate fresh
        have rated := rated_source wired seeded.grows known free source (ports _ source) held
        refine ⟨⟨seeded.sound.withRate free fresh rated,seeded.grows.trans grows,?_⟩,grows,
          fun _ => settled_withRate⟩
        intro id other stored
        rw [rateOf_withRate] at stored
        split at stored
        · rename_i same
          cases stored
          rw [← same]
          exact held
        · exact seeded.declared id other stored
      · rename_i silent
        have unrated : derived.rateOf pair.1 = none := by
          cases rated : derived.rateOf pair.1 with
          | none => rfl
          | some rate =>
            rw [seeded.declared pair.1 rate rated] at silent
            cases silent
        have unsettled := not_isSettled_iff.mpr ⟨unrated,free⟩
        have stuck : Stuck graph given derived pair.1 :=
          ⟨pair.1,.refl,.inl (.undeclared source silent)⟩
        have grows : Grows derived (derived.withReason pair.1 .undeclaredSource) :=
          grows_withReason free
        have sound := seeded.sound.withReason unsettled (.inl stuck)
          (fun overflow : Indeterminate.undeclaredSource = .rateOverflow => nomatch overflow)
        exact ⟨⟨sound,seeded.grows.trans grows,seeded.declared⟩,grows,fun _ => settled_withReason⟩
    · rename_i busy
      exact ⟨seeded,Grows.refl _,fun idle => absurd idle busy⟩

theorem seedSources_spec : Sound graph given (seedSources graph given) ∧
      Grows (markCyclic graph) (seedSources graph given) ∧
      ∀ id, IsSource graph id → (seedSources graph given).isSettled id = true := by
  obtain ⟨seeded,_,settled⟩ := @foldl_settles _ _ graph.nodes.entries (seed given)
    (Seeded graph given) _ Prod.fst (fun _ _ listed before => before.seed wired ports listed)
    (seeded_markCyclic wired)
  refine ⟨seeded.sound,seeded.grows,?_⟩
  rintro id ⟨node,found,idle⟩
  exact settled (id,node) (get_eq_some_iff.mp found) idle

end Start

/-! ### Relaxing -/

section Relax

theorem wired_channels (graph : DataflowGraph) (id : NodeId) :
    ∀ key ∈ graph.edgesInto id, ((fromGraph graph).channels.get key).isSome = true := by
  intro _ mem
  obtain ⟨⟨edge,found⟩,_⟩ := mem_edgesInto.mp mem
  exact Option.isSome_iff_exists.mpr ⟨_,fromGraph_channel.mpr ⟨edge,found,rfl⟩⟩

variable {key : EdgeKey} {channels : OrderedMap EdgeKey Channel} {next : DerivedRates}

theorem leads_of_channel {channel : Channel} {node : NodeId} {output : PortName}
    (mem : key ∈ graph.edgesInto id)
    (held : (fromGraph graph).channels.get key = some channel)
    (producer : channel.producer = .node node output) : Leads graph node id := by
  obtain ⟨edge,found,rfl⟩ := fromGraph_channel.mp held
  exact ⟨key,edge,found,producerOf_eq_node.mpr ⟨output,producer⟩,
    (mem_edgesInto.mp mem).2⟩

theorem arrives_of_mem {keys : List EdgeKey} {rates : List Rate}
    (arrives : List.Forall₂ (Arrives channels derived) keys rates)
    (mem : key ∈ keys) : ∃ rate, Arrives channels derived key rate := by
  induction arrives with
  | nil => cases mem
  | @cons first rate keys _ arrival _ ih =>
    rw [mem_cons] at mem
    cases mem with
    | inl same =>
      rw [same]
      exact ⟨rate,arrival⟩
    | inr later => exact ih later

theorem rated_settle {rate : Rate} (sound : Sound graph given derived)
    (known : id ∈ nodeIds graph) (offCycle : ¬ OnCycle graph id) (fed : ¬ IsSource graph id)
    (result : settle graph (fromGraph graph).channels derived id = .rate rate) :
    Rated graph given derived id rate := by
  obtain ⟨-,_,arrives,added⟩ := settleFrom_rate (wired_channels graph id) result
  have arriving : ∀ {key edge}, graph.edges.get key = some edge → key.consumer = id →
      ∃ rate, derived.arrivalRate (Channel.fromEdge edge) = some rate := by
    intro _ edge found consumer
    obtain ⟨rate,arrival⟩ := arrives_of_mem arrives
      (mem_edgesInto.mpr ⟨⟨edge,found⟩,consumer⟩)
    obtain ⟨_,same,value⟩ := arrives_fromGraph.mp arrival
    rw [found] at same
    cases same
    exact ⟨rate,value⟩
  constructor
  · intro blocked
    cases blocked with
    | missing absent => exact absent known
    | cycle circle => exact offCycle circle
    | undeclared source => exact fed source
    | @aperiodic key edge source found consumer producer =>
      obtain ⟨rate,value⟩ := arriving found consumer
      unfold arrivalRate Channel.fromEdge at value
      dsimp only at value
      rw [producer] at value
      cases value
  · rintro node ⟨_,edge,found,made,consumer⟩
    obtain ⟨rate,value⟩ := arriving found consumer
    obtain ⟨output,producer⟩ := producerOf_eq_node.mp made
    unfold arrivalRate Channel.fromEdge at value
    dsimp only at value
    rw [producer] at value
    exact ⟨rate,value⟩
  · rw [routes_of_edges fed,← nil_append (graph.edgesInto id)]
    apply carries_addAll sound.carries arrives _ _ added
    · rw [nil_append]
      exact graph.edgesInto_nodup id
    · rw [routesVia_nil,Rate.value_zero]
      exact carries_empty
  · rw [← Rate.value_zero,← addAll_isSome_iff sound.carries arrives,added]
    rfl

theorem stuck_settle {reason : Indeterminate} (sound : Sound graph given derived)
    (result : settle graph (fromGraph graph).channels derived id = .indeterminate reason) :
    (Stuck graph given derived id ∨ reason = .rateOverflow) ∧
      (reason = .rateOverflow → Overfull graph derived id) := by
  cases settleFrom_indeterminate result with
  | @aperiodic key channel source mem held producer =>
    obtain ⟨_,found,rfl⟩ := fromGraph_channel.mp held
    have consumer := (mem_edgesInto.mp mem).2
    exact ⟨.inl ⟨id,.refl,.inl (.aperiodic found consumer producer)⟩,nofun⟩
  | upstream mem held producer stuck =>
    obtain ⟨why,known⟩ := Option.isSome_iff_exists.mp stuck
    exact ⟨.inl ((sound.stuck _ why known).of_upstream (leads_of_channel mem held producer)),
      nofun⟩
  | overflow overflows => exact ⟨.inr rfl,fun _ => overflows⟩

structure Relaxed (graph : DataflowGraph) (declared : OrderedMap NodeId Rate)
    (derived : DerivedRates) : Prop where
  sound : Sound graph declared derived
  grows : Grows (seedSources graph declared) derived

theorem relax_settles (stepped : relax graph channels derived id = some next) :
    derived.isSettled id = false ∧ Grows derived next ∧ next.isSettled id = true := by
  unfold Verify.relax at stepped
  split at stepped
  · cases stepped
  · rename_i waiting
    have unsettled : derived.isSettled id = false := Bool.eq_false_iff.mpr waiting
    obtain ⟨unrated,unstuck⟩ := not_isSettled_iff.mp unsettled
    split at stepped
    · cases stepped
      refine ⟨unsettled,grows_withRate ?_,settled_withRate⟩
      intro _ held
      rw [unrated] at held
      cases held
    · cases stepped
      exact ⟨unsettled,grows_withReason unstuck,settled_withReason⟩
    · cases stepped

theorem Relaxed.relax (wired : Wired graph) (ports : PortsWired graph)
    (relaxed : Relaxed graph given derived) (known : id ∈ nodeIds graph)
    (stepped : relax graph (fromGraph graph).channels derived id = some next) :
    Relaxed graph given next := by
  obtain ⟨_,marked,sources⟩ := @seedSources_spec graph given wired ports
  obtain ⟨unsettled,grows,_⟩ := relax_settles stepped
  refine ⟨?_,relaxed.grows.trans grows⟩
  obtain ⟨unrated,unstuck⟩ := not_isSettled_iff.mp unsettled
  have offCycle : ¬ OnCycle graph id := by
    intro cycle
    rw [cycle.has_reason wired (marked.trans relaxed.grows)] at unstuck
    cases unstuck
  have fed : ¬ IsSource graph id := by
    intro idle
    rw [relaxed.grows.settled (sources id idle)] at unsettled
    cases unsettled
  unfold Verify.relax at stepped
  rw [unsettled] at stepped
  simp only [Bool.false_eq_true,if_false] at stepped
  split at stepped
  · rename_i rate result
    cases stepped
    refine relaxed.sound.withRate unstuck ?_ (rated_settle relaxed.sound known offCycle fed result)
    intro _ held
    rw [unrated] at held
    cases held
  · rename_i reason result
    cases stepped
    obtain ⟨cause,full⟩ := stuck_settle relaxed.sound result
    exact relaxed.sound.withReason unsettled cause full
  · cases stepped

def unsettled (graph : DataflowGraph) (derived : DerivedRates) : Nat :=
  (nodeIds graph).countP fun id => !derived.isSettled id

theorem relax_lowers (state : DerivedRates) (id : NodeId) (next : DerivedRates)
    (known : id ∈ nodeIds graph) (stepped : relax graph channels state id = some next) :
    unsettled graph next < unsettled graph state := by
  obtain ⟨waiting,grows,settled⟩ := relax_settles stepped
  apply Sweep.countP_lt_of_lost _ known
  · rw [waiting]
    rfl
  · rw [settled]
    rfl
  · intro other open_
    cases before : state.isSettled other with
    | false => rfl
    | true =>
      rw [grows.settled before] at open_
      cases open_

/-- A node that waits when no step is left is fed from outside the graph or from a cycle. -/
theorem stuck_stable (stable : ∀ id ∈ nodeIds graph,
      relax graph (fromGraph graph).channels derived id = none)
    (waiting : derived.isSettled id = false) : Stuck graph given derived id := by
  by_contra unstuck
  have free : ∀ ancestor, Graph.Path graph ancestor id → ¬ Blocked graph given ancestor := by
    intro ancestor path blocked
    exact unstuck ⟨ancestor,path,.inl blocked⟩
  have inside : ∀ ancestor, Graph.Path graph ancestor id → ancestor ∈ nodeIds graph := by
    intro ancestor path
    by_contra absent
    exact free ancestor path (.missing absent)
  let waits : Set NodeId := {ancestor | Graph.Path graph ancestor id ∧
    derived.isSettled ancestor = false}
  have finite : waits.Finite :=
    (finite_toSet (nodeIds graph)).subset fun ancestor mem => inside ancestor mem.1
  obtain ⟨first,⟨path,open_⟩,alone⟩ := Sweep.exists_first finite ⟨id,.refl,waiting⟩
    (fun ancestor mem circle => free ancestor mem.1 (.cycle circle))
  have still := stable first (inside first path)
  unfold relax at still
  rw [open_] at still
  simp only [Bool.false_eq_true,if_false] at still
  split at still
  · cases still
  · cases still
  · rename_i result
    obtain impossible | ⟨_,mem,_,node,_,held,producer,before⟩ := settleFrom_pending result
    · cases impossible
    · have leads := leads_of_channel mem held producer
      exact alone node ⟨path.head leads,before⟩ leads

end Relax

/-! ### The derived rates -/

section Derive

theorem relaxed_stable (wired : Wired graph) (ports : PortsWired graph) :
    ∃ stable, derive graph (fromGraph graph).channels given =
        (nodeIds graph).foldl giveUp stable ∧
      Sound graph given stable ∧
      ∀ id, stable.isSettled id = false → Stuck graph given stable id := by
  obtain ⟨sound,_⟩ := @seedSources_spec graph given wired ports
  have start : Relaxed graph given (seedSources graph given) := ⟨sound,Grows.refl _⟩
  have relaxed := Sweep.passes_induct
    (fun state id next known before stepped => Relaxed.relax wired ports before known stepped)
    (graph.nodes.len + 1) start
  have enough : unsettled graph (seedSources graph given) < graph.nodes.len + 1 := by
    have bound : unsettled graph (seedSources graph given) ≤ (nodeIds graph).length :=
      List.countP_le_length
    have same : (nodeIds graph).length = graph.nodes.len := length_map _
    omega
  have stable := Sweep.passes_stable (@relax_lowers graph (fromGraph graph).channels) enough
  exact ⟨_,rfl,relaxed.sound,fun id waiting => stuck_stable stable waiting⟩

section

variable {stable : DerivedRates}
  (stuck : ∀ id, stable.isSettled id = false → Stuck graph given stable id)
include stuck

theorem Sound.giveUp (sound : Sound graph given derived) (grows : Grows stable derived)
    (id : NodeId) :
    (Sound graph given (giveUp derived id) ∧ Grows stable (giveUp derived id)) ∧
      Grows derived (giveUp derived id) ∧ (True → (giveUp derived id).isSettled id = true) := by
  unfold Verify.giveUp
  split
  · rename_i settled
    exact ⟨⟨sound,grows⟩,Grows.refl _,fun _ => settled⟩
  · rename_i waiting
    have unsettled : derived.isSettled id = false := Bool.eq_false_iff.mpr waiting
    have before : stable.isSettled id = false := by
      by_contra settled
      exact waiting (grows.settled (Bool.not_eq_false _ ▸ settled))
    have further : Grows derived (derived.withReason id .upstreamIndeterminate) :=
      grows_withReason (not_isSettled_iff.mp unsettled).2
    exact ⟨⟨sound.withReason unsettled (.inl ((stuck id before).mono grows)) nofun,
      grows.trans further⟩,further,fun _ => settled_withReason⟩

end

theorem derive_sound (wired : Wired graph) (ports : PortsWired graph) :
    Sound graph given (derive graph (fromGraph graph).channels given) ∧
      ∀ id ∈ nodeIds graph,
        (derive graph (fromGraph graph).channels given).isSettled id = true := by
  obtain ⟨stable,same,sound,stuck⟩ := @relaxed_stable graph given wired ports
  obtain ⟨⟨after,_⟩,_,settled⟩ := @foldl_settles _ _ (nodeIds graph) _
    (fun derived => Sound graph given derived ∧ Grows stable derived) _ _
    (fun _ id _ before => before.1.giveUp stuck before.2 id) ⟨sound,Grows.refl stable⟩
  rw [same]
  exact ⟨after,fun id known => settled id known trivial⟩

end Derive

/-- A camera on a timer, and a detector that reads it twice. -/
def cameraTwice : DataflowGraph :=
  let fed := fun source : EdgeSource => Edge.mk source ⟨1,.dropOldest⟩
  { nodes := ofList
      [(['c'],.plain [['o']] [['t']] none),(['d'],.plain [] [['f'],['g']] none)]
    edges := ofList [(⟨['c'],['t']⟩,fed (.virtual
          ['a','s','t','r','s','/','t','i','m','e','r','/','h','z','/','5','0'])),
        (⟨['d'],['f']⟩,fed (.nodeOutput ['c'] ['o'])),
        (⟨['d'],['g']⟩,fed (.nodeOutput ['c'] ['o']))]
    strictTypes := false
    typeRules := [] }

theorem wired_of_entries (consumers : ∀ pair ∈ graph.edges.entries, pair.1.consumer ∈ nodeIds graph)
    (ports : ∀ pair ∈ graph.nodes.entries,
      pair.2.inputs.entries.isEmpty = true → graph.edgesInto pair.1 = []) :
    Wired graph ∧ PortsWired graph := by
  constructor
  · intro key edge found
    exact consumers (key,edge) (get_eq_some_iff.mp found)
  · rintro id ⟨node,found,idle⟩
    exact ports (id,node) (get_eq_some_iff.mp found) idle

end Astrs.Verify
