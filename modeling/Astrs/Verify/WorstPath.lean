/-
The latency system decides whether the worst path exceeds its budget.

The scope is closed upstream and free of cycles, so the recurrence has a solution; every
path is below it and one attains it.
-/

import Mathlib.Tactic.NormNum
import Astrs.Verify.Derivation
import Astrs.Verify.Upstream

namespace Astrs.Verify

open Astrs.Base Astrs.Graph List RatedModel Formula OrderedMap
open ConstraintSystem (satisfies_assert)
open Option (bind_some getD_some)

variable {scope : Scope} {delays : Delays}

section Recurrence

variable {model : Model} {point : VarId → Int}

def arrivalAge (model : Model) (age : NodeId → Int) (key : EdgeKey) (delay : Int) : Int :=
  match model.producerOn key with
  | some producer => age producer + delay
  | none => delay

/-- The age of a node is the worst over its inputs, and zero without any. -/
structure Pinned (model : Model) (delays : Delays) (age : NodeId → Int) (id : NodeId)
    (node : Node) : Prop where
  idle : node.inputs = [] → age id = 0
  above : ∀ key ∈ node.inputs, ∀ delay, delays.get key = some delay →
    arrivalAge model age key delay ≤ age id
  attained : node.inputs ≠ [] → ∃ key ∈ node.inputs, ∃ delay, delays.get key = some delay ∧
    age id = arrivalAge model age key delay

theorem declareAges_get (id : NodeId) :
    (declareAges scope).2.get id = if id ∈ scope.nodes.elems then some (ageName id) else none := by
  unfold declareAges
  rw [foldl_reads (fun state : ConstraintSystem × Ages => state.2.get) ageName
    fun state id other => state.2.get_insert id other _]
  congr

theorem declareAges_satisfies : (declareAges scope).1.Satisfies point :=
  (foldl_unchanged declareAge (fun state => state.1.Satisfies point)
    (fun _ _ => ConstraintSystem.satisfies_declare) scope.nodes.elems _).mpr
    ConstraintSystem.satisfies_new

theorem value_arrivalTerm {key : EdgeKey}
    (producers : ∀ id, model.producerOn key = some id → id ∈ scope.nodes.elems) (delay : Int) :
    value point (arrivalTerm model key (declareAges scope).2 delay) =
      arrivalAge model (fun id => point (ageName id)) key delay := by
  unfold arrivalTerm arrivalAge
  cases produced : model.producerOn key with
  | none => exact value_ofInt
  | some producer =>
    rw [bind_some,declareAges_get,if_pos (producers producer produced)]
    exact value_plusConstant

theorem foldl_encodeInput {keys : List EdgeKey} {age : VarId} (start : Recurrence)
    (producers : ∀ key ∈ keys, ∀ id, model.producerOn key = some id → id ∈ scope.nodes.elems) :
    ((keys.foldl (encodeInput model (declareAges scope).2 delays age) start).system.Satisfies
        point ↔
      start.system.Satisfies point ∧ ∀ key ∈ keys, ∀ delay, delays.get key = some delay →
        arrivalAge model (fun id => point (ageName id)) key delay ≤ point age) ∧
    ((∃ formula ∈ (keys.foldl (encodeInput model (declareAges scope).2 delays age) start).equalities,
        formula.Holds point) ↔
      (∃ formula ∈ start.equalities, formula.Holds point) ∨
        ∃ key ∈ keys, ∃ delay, delays.get key = some delay ∧
          point age = arrivalAge model (fun id => point (ageName id)) key delay) := by
  induction keys generalizing start with
  | nil => simp
  | cons key keys ih =>
    have here := producers key mem_cons_self
    obtain ⟨satisfies,equalities⟩ :=
      ih (encodeInput model (declareAges scope).2 delays age start key)
        (fun other mem => producers other (mem_cons_of_mem key mem))
    rw [foldl_cons,satisfies,equalities]
    unfold encodeInput
    cases held : delays.get key with
    | none => simp [held]
    | some =>
      rw [satisfies_assert,holds_ge,value_arrivalTerm here,value_var]
      constructor
      · simp only [forall_mem_cons,held,Option.some.injEq,forall_eq',and_assoc]
      · simp only [mem_append,mem_singleton,or_and_right,exists_or,exists_eq_left,
          holds_eq,value_arrivalTerm here,value_var,exists_mem_cons_iff,
          held,Option.some.injEq,exists_eq_left',or_assoc]

theorem encodeNode_iff {state next : ConstraintSystem × Bool} {id : NodeId}
    (closed : ∀ key ∈ scope.channels.elems, ∀ id, model.producerOn key = some id →
      id ∈ scope.nodes.elems)
    (inputs : ∀ node, model.nodes.get id = some node → ∀ key ∈ node.inputs,
      key ∈ scope.channels.elems) (mem : id ∈ scope.nodes.elems)
    (encoded : encodeNode model (declareAges scope).2 delays state id = some next) :
    next.1.Satisfies point ↔ state.1.Satisfies point ∧
      ∀ node, model.nodes.get id = some node →
        Pinned model delays (fun id => point (ageName id)) id node := by
  unfold encodeNode at encoded
  rw [declareAges_get,if_pos mem] at encoded
  cases found : model.nodes.get id with
  | none =>
    rw [found] at encoded
    cases encoded
    simp
  | some node =>
    rw [found] at encoded
    dsimp only at encoded
    simp only [Option.some.injEq,forall_eq']
    split at encoded
    · rename_i none
      cases encoded
      rw [satisfies_assert,holds_eq,value_var,value_ofInt]
      apply and_congr_right
      intro _
      have idle : node.inputs = [] := List.isEmpty_iff.mp none
      constructor
      · intro zero
        refine ⟨fun _ => zero,?_,fun fed => absurd idle fed⟩
        rw [idle]
        exact nofun
      · intro pinned
        exact pinned.idle idle
    · rename_i fed
      split at encoded
      · cases encoded
      · cases encoded
        have producers : ∀ key ∈ node.inputs, ∀ id, model.producerOn key = some id →
            id ∈ scope.nodes.elems := fun key input => closed key (inputs node found key input)
        obtain ⟨satisfies,equalities⟩ := @foldl_encodeInput scope delays model point
          node.inputs (ageName id)
          { system := state.1, equalities := [], complete := state.2 } producers
        rw [satisfies_assert,holds_any,satisfies,equalities,and_assoc]
        apply and_congr_right
        intro _
        have nonempty : node.inputs ≠ [] := fun idle => fed (List.isEmpty_iff.mpr idle)
        simp only [not_mem_nil,false_and,exists_false,false_or]
        constructor
        · rintro ⟨above,attained⟩
          exact ⟨fun idle => absurd idle nonempty,above,fun _ => attained⟩
        · intro pinned
          exact ⟨pinned.above,pinned.attained nonempty⟩

theorem encodeRecurrence_iff {system encoded : ConstraintSystem} {goal : EdgeKey}
    (closed : scope.Closed model goal)
    (made : encodeRecurrence system model scope (declareAges scope).2 delays = some encoded) :
    encoded.Satisfies point ↔ system.Satisfies point ∧
      ∀ id ∈ scope.nodes.elems, ∀ node, model.nodes.get id = some node →
        Pinned model delays (fun id => point (ageName id)) id node := by
  unfold encodeRecurrence at made
  split at made
  · rename_i ended
    cases made
    have steps := fun state id next (mem : id ∈ scope.nodes.elems) =>
      @encodeNode_iff scope delays model point state next id
        (fun _ => closed.producers)
        (closed.inputs id mem) mem
    exact @foldlM_and_iff (ConstraintSystem × Bool) NodeId
      (fun state => state.1.Satisfies point) _ _ _ steps _ _ ended
  · cases made
  · cases made

end Recurrence

/-! ### The time scale -/

variable {scale : Nat} {key : EdgeKey} {keys : List EdgeKey}

section Scale

variable {model : RatedModel}

theorem checkedMul_eq {left right product : Nat} (made : checkedMul left right = some product) :
    product = left * right := by
  unfold checkedMul at made
  split at made
  · exact (Option.some.inj made).symm
  · cases made

theorem lcm_eq {left right result : Nat} (pos : 0 < left) (nonzero : right ≠ 0)
    (made : lcm left right = some result) : result = left.lcm right := by
  unfold lcm at made
  rw [if_neg (not_or.mpr ⟨Nat.pos_iff_ne_zero.mp pos,nonzero⟩)] at made
  rw [checkedMul_eq made,Nat.lcm_eq_mul_div,Nat.div_mul_right_comm (Nat.gcd_dvd_left left right)]

theorem widen_eq {wider : Nat} (pos : 0 < scale)
    (widened : widen model scale key = some wider) :
    0 < wider ∧ scale ∣ wider ∧ ∃ rate, model.arrivalRate key = some rate ∧
      (rate.isZero = false → rate.numerator ∣ wider) := by
  unfold widen at widened
  split at widened
  · cases widened
  · rename_i rate arrives
    split at widened
    · rename_i zero
      cases widened
      refine ⟨pos,dvd_refl _,rate,arrives,fun nonzero => ?_⟩
      rw [zero] at nonzero
      cases nonzero
    · rename_i nonzero
      have numerator : rate.numerator ≠ 0 := fun zero => nonzero (decide_eq_true zero)
      split at widened
      · cases widened
      · rename_i least made
        split at widened
        · cases widened
        · cases widened
          rw [lcm_eq pos numerator made]
          exact ⟨Nat.lcm_pos pos (Nat.pos_of_ne_zero numerator),Nat.dvd_lcm_left _ _,rate,
            arrives,fun _ => Nat.dvd_lcm_right _ _⟩

theorem foldlM_widen {start : Nat} (pos : 0 < start)
    (widened : keys.foldlM (widen model) start = some scale) :
    0 < scale ∧ start ∣ scale ∧ ∀ key ∈ keys, ∃ rate, model.arrivalRate key = some rate ∧
      (rate.isZero = false → rate.numerator ∣ scale) := by
  induction keys generalizing start with
  | nil =>
    cases widened
    exact ⟨pos,dvd_refl _,fun key mem => nomatch mem⟩
  | cons key keys ih =>
    obtain ⟨_,first,rest⟩ := Option.bind_eq_some_iff.mp widened
    obtain ⟨nextPositive,grows,rate,arrives,divides⟩ := widen_eq pos first
    obtain ⟨result,divided,others⟩ := ih nextPositive rest
    refine ⟨result,grows.trans divided,fun other mem => ?_⟩
    rw [mem_cons] at mem
    cases mem with
    | inl same =>
      rw [same]
      exact ⟨rate,arrives,fun nonzero => (divides nonzero).trans divided⟩
    | inr later => exact others other later

def waiting (model : RatedModel) (key : EdgeKey) : ℚ :=
  match model.channels.get key, model.arrivalRate key with
  | some channel,some rate => channel.effectiveCapacity * nanosPerSec / rate.value
  | _,_ => 0

theorem scaledDelay_eq {delay : Int}
    (divides : ∀ rate, model.arrivalRate key = some rate → rate.isZero = false →
      rate.numerator ∣ scale) (scaled : scaledDelay model scale key = some delay) :
    (delay : ℚ) = waiting model key * scale := by
  obtain ⟨_,held,scaled⟩ := Option.bind_eq_some_iff.mp scaled
  obtain ⟨rate,arrives,scaled⟩ := Option.bind_eq_some_iff.mp scaled
  split at scaled
  · cases scaled
  · rename_i nonzero
    obtain ⟨_,first,scaled⟩ := Option.bind_eq_some_iff.mp scaled
    obtain ⟨_,second,scaled⟩ := Option.bind_eq_some_iff.mp scaled
    obtain ⟨_,third,scaled⟩ := Option.bind_eq_some_iff.mp scaled
    split at scaled
    · cases scaled
      have zero : rate.isZero = false := Bool.eq_false_iff.mpr nonzero
      have numerator : (rate.numerator : ℚ) ≠ 0 := Nat.cast_ne_zero.mpr (of_decide_eq_false zero)
      obtain ⟨_,same⟩ := divides rate arrives zero
      unfold waiting
      rw [held,arrives,checkedMul_eq third,checkedMul_eq second,checkedMul_eq first,same,
        Nat.mul_div_cancel_left _ (Nat.pos_of_ne_zero (of_decide_eq_false zero))]
      dsimp only [Rate.value]
      push_cast
      field_simp
    · cases scaled

theorem foldlM_addDelay {start : Delays}
    (made : keys.foldlM (addDelay model scale) start = some delays) (key : EdgeKey) :
    (key ∈ keys → ∃ delay, scaledDelay model scale key = some delay ∧
      delays.get key = some delay) ∧ (key ∉ keys → delays.get key = start.get key) := by
  induction keys generalizing start with
  | nil =>
    cases made
    exact ⟨nofun,fun _ => rfl⟩
  | cons head keys ih =>
    obtain ⟨next,first,rest⟩ := Option.bind_eq_some_iff.mp made
    obtain ⟨delay,scaled,same⟩ := Option.map_eq_some_iff.mp first
    obtain ⟨inside,outside⟩ := ih rest
    have here : next.get key = if head = key then some delay else start.get key := by
      rw [← same,get_insert]
    constructor
    · intro mem
      by_cases later : key ∈ keys
      · exact inside later
      · have atHead := (mem_cons.mp mem).resolve_right later
        refine ⟨delay,?_,?_⟩
        · rw [atHead]
          exact scaled
        · rw [outside later,here,if_pos atHead.symm]
    · intro absent
      have apart := not_or.mp fun mem => absent (mem_cons.mpr mem)
      rw [outside apart.2,here,if_neg fun same => apart.1 same.symm]

end Scale

/-- A path to a channel, from its last edge back to a timer or to a node without inputs. -/
inductive Journey (graph : DataflowGraph) : EdgeKey → List EdgeKey → Prop where
  | timer {key : EdgeKey} {edge : Edge} {source : Text} {rate : Rate}
      (found : graph.edges.get key = some edge)
      (producer : producerOf edge.source = .timer source rate) : Journey graph key [key]
  | source {key : EdgeKey} {edge : Edge} {id : NodeId}
      (found : graph.edges.get key = some edge) (produced : edge.source.producerNode = some id)
      (known : id ∈ nodeIds graph) (idle : graph.edgesInto id = []) : Journey graph key [key]
  | step {key next : EdgeKey} {edge : Edge} {id : NodeId} {keys : List EdgeKey}
      (found : graph.edges.get key = some edge) (produced : edge.source.producerNode = some id)
      (input : next ∈ graph.edgesInto id) (onward : Journey graph next keys) :
      Journey graph key (key :: keys)

def pathDelay (model : RatedModel) : List EdgeKey → ℚ
  | [] => 0
  | key :: keys => waiting model key + pathDelay model keys

def scaledPath (delays : Delays) : List EdgeKey → Int
  | [] => 0
  | key :: keys => (delays.get key).getD 0 + scaledPath delays keys

variable {graph : DataflowGraph} {id : NodeId} {model : RatedModel} {rate : Rate}

theorem producerOn_fromGraph {edge : Edge} (found : graph.edges.get key = some edge) :
    (Model.fromGraph graph).producerOn key = edge.source.producerNode := by
  unfold Model.producerOn
  rw [fromGraph_channel.mpr ⟨edge,found,rfl⟩,bind_some]
  change (producerOf edge.source).nodeId = edge.source.producerNode
  cases edge.source with
  | nodeOutput => rfl
  | virtual =>
    dsimp only [producerOf]
    split <;> rfl

theorem node_fromGraph (known : id ∈ nodeIds graph) : (Model.fromGraph graph).nodes.get id =
      some { inputs := graph.edgesInto id, produces := graph.edgesFrom id } := by
  obtain ⟨_,found⟩ := Option.isSome_iff_exists.mp (mem_nodeIds.mp known)
  unfold Model.fromGraph
  rw [get_mapWithKey,found]
  rfl

def worstArrival (model : Model) (delays : Delays) (age : NodeId → Int) (keys : List EdgeKey) :
    Int :=
  (keys.map fun key => arrivalAge model age key ((delays.get key).getD 0)).max?.getD 0

variable {age : NodeId → Int}

section Worst

variable {model : Model}

theorem worstArrival_worst (nonempty : keys ≠ []) :
    (∃ key ∈ keys, arrivalAge model age key ((delays.get key).getD 0) =
      worstArrival model delays age keys) ∧
    ∀ key ∈ keys, arrivalAge model age key ((delays.get key).getD 0) ≤
      worstArrival model delays age keys := by
  unfold worstArrival
  cases worst : (keys.map fun key => arrivalAge model age key ((delays.get key).getD 0)).max? with
  | none => exact absurd (map_eq_nil_iff.mp (max?_eq_none_iff.mp worst)) nonempty
  | some =>
    obtain ⟨attained,above⟩ := max?_eq_some_iff.mp worst
    exact ⟨mem_map.mp attained,fun _ mem => above _ (mem_map_of_mem mem)⟩

theorem worstArrival_congr {other : NodeId → Int}
    (same : ∀ key ∈ keys, ∀ id, model.producerOn key = some id → age id = other id) :
    worstArrival model delays age keys = worstArrival model delays other keys := by
  unfold worstArrival
  congr 2
  apply map_congr_left
  intro key mem
  unfold arrivalAge
  cases produced : model.producerOn key with
  | none => rfl
  | some id =>
    dsimp only
    rw [same key mem id produced]

end Worst

/-! ### The verdict -/

/-- What stands behind a system that reaches the solver. -/
structure Reached (model : RatedModel) (target : EdgeKey) (scope : Scope) (scale : Nat)
    (delays : Delays) : Prop where
  closed : scope.Closed model.toModel target
  scaled : scope.timeScale model = some scale
  delayed : scope.channels.elems.foldlM (addDelay model scale) empty = some delays

theorem dischargeOne_ok {goal : EdgeKey} {budget : Int}
    {system : ConstraintSystem} (reached : dischargeOne model goal budget = .ok system) :
    ∃ scope scale delays encoded targetDelay, Reached model goal scope scale delays ∧
      encodeRecurrence (declareAges scope).1 model.toModel scope (declareAges scope).2 delays =
        some encoded ∧
      delays.get goal = some targetDelay ∧
      system = encoded.assert (gt
        (arrivalTerm model.toModel goal (declareAges scope).2 targetDelay)
        (Term.ofInt (budget * scale))) := by
  unfold dischargeOne at reached
  split at reached
  · cases reached
  · rename_i scope walked
    split at reached
    · cases reached
    · cases reached
    · rename_i scale _ scaled
      unfold encodeScaled at reached
      split at reached
      · cases reached
      · rename_i delays made
        split at reached
        · cases reached
        · unfold encodeViolation at reached
          dsimp only at reached
          split at reached
          · cases reached
          · cases reached
          · rename_i encoded targetDelay recurrence held
            cases reached
            exact ⟨scope,scale,delays,encoded,targetDelay,
              ⟨Scope.closed_of_around walked,scaled,made⟩,recurrence,held,rfl⟩

theorem rateOf_producer
    (produced : model.producerOn key = some id) (arrives : model.arrivalRate key = some rate) :
    model.rates.rateOf id = some rate := by
  unfold arrivalRate at arrives
  obtain ⟨channel,held,node⟩ := Option.bind_eq_some_iff.mp produced
  rw [held,bind_some] at arrives
  unfold DerivedRates.arrivalRate at arrives
  cases producer : channel.producer with
  | node =>
    rw [producer] at node arrives
    cases node
    exact arrives
  | timer | aperiodic =>
    rw [producer] at node
    cases node

variable {given : OrderedMap NodeId Rate} {goal : EdgeKey}

section Verdict

section

variable (reached : Reached model goal scope scale delays)
include reached

theorem Reached.positive : 0 < scale := (foldlM_widen Nat.one_pos reached.scaled).1

theorem Reached.arrives (mem : key ∈ scope.channels.elems) :
    ∃ rate, model.arrivalRate key = some rate := by
  obtain ⟨rate,arrives,_⟩ := (foldlM_widen Nat.one_pos reached.scaled).2.2 key mem
  exact ⟨rate,arrives⟩

theorem Reached.delay (mem : key ∈ scope.channels.elems) :
    ∃ delay, delays.get key = some delay ∧ (delay : ℚ) = waiting model key * scale := by
  obtain ⟨delay,scaled,held⟩ := (foldlM_addDelay reached.delayed key).1 mem
  obtain ⟨_,arrives,divides⟩ := (foldlM_widen Nat.one_pos reached.scaled).2.2 key mem
  refine ⟨delay,held,scaledDelay_eq (fun other same nonzero => ?_) scaled⟩
  rw [arrives] at same
  cases same
  exact divides nonzero

end

variable (reached : Reached (build graph given) goal scope scale delays)

section Rated

variable (sound : Sound graph given (build graph given).rates)
include reached sound

theorem Reached.free (mem : id ∈ scope.nodes.elems) : ¬ Blocked graph given id := by
  obtain ⟨_,inside,produced⟩ := reached.closed.produce id (.inl mem)
  obtain ⟨rate,arrives⟩ := reached.arrives inside
  exact (sound.rated id rate (rateOf_producer produced arrives)).free

theorem Reached.known (mem : id ∈ scope.nodes.elems) : id ∈ nodeIds graph := by
  by_contra absent
  exact reached.free sound mem (.missing absent)

theorem Reached.inputs (mem : id ∈ scope.nodes.elems)
    (input : key ∈ graph.edgesInto id) : key ∈ scope.channels.elems :=
  reached.closed.inputs id mem _ (node_fromGraph (reached.known sound mem)) key input

theorem Reached.upstream {earlier later : NodeId} (leads : Leads graph earlier later)
    (mem : later ∈ scope.nodes.elems) : earlier ∈ scope.nodes.elems := by
  obtain ⟨key,edge,found,produced,used⟩ := leads
  have input := DataflowGraph.mem_edgesInto.mpr ⟨⟨edge,found⟩,used⟩
  apply reached.closed.producers (reached.inputs sound mem input)
  exact (producerOn_fromGraph found).trans produced

/-- The recurrence has a solution. -/
theorem Reached.exists_ages : ∃ age : NodeId → Int, ∀ id ∈ scope.nodes.elems, ∀ node,
      (Model.fromGraph graph).nodes.get id = some node →
        Pinned (Model.fromGraph graph) delays age id node := by
  have finite : {id | id ∈ scope.nodes.elems}.Finite := finite_toSet scope.nodes.elems
  obtain ⟨age,solves⟩ := @Sweep.exists_solution NodeId (Leads graph)
    {id | id ∈ scope.nodes.elems} finite
    (fun leads mem => reached.upstream sound leads mem)
    (fun id mem circle => reached.free sound mem (.cycle circle)) Int _
    (fun id age => worstArrival (Model.fromGraph graph) delays age (graph.edgesInto id))
    (by
      intro _ _ _ same
      apply worstArrival_congr
      intro key input _ produced
      obtain ⟨⟨edge,found⟩,used⟩ := DataflowGraph.mem_edgesInto.mp input
      apply same
      exact ⟨key,edge,found,(producerOn_fromGraph found).symm.trans produced,used⟩)
  refine ⟨age,fun id mem node found => ?_⟩
  rw [node_fromGraph (reached.known sound mem)] at found
  cases found
  have worst := solves id mem
  have extreme := @worstArrival_worst delays (graph.edgesInto id) age (Model.fromGraph graph)
  rw [← worst] at extreme
  constructor
  · intro idle
    change graph.edgesInto id = [] at idle
    rw [worst,idle]
    rfl
  · intro key input _ held
    have bound := (extreme (ne_nil_of_mem input)).2 key input
    rw [held,getD_some] at bound
    exact bound
  · intro fed
    obtain ⟨⟨key,input,same⟩,_⟩ := extreme fed
    obtain ⟨delay,held,_⟩ := reached.delay (reached.inputs sound mem input)
    refine ⟨key,input,delay,held,?_⟩
    rw [held,getD_some] at same
    exact same.symm

theorem Reached.scaledPath_eq (journey : Journey graph key keys)
    (inside : key ∈ scope.channels.elems) :
    (scaledPath delays keys : ℚ) = pathDelay (build graph given) keys * scale := by
  have single : ∀ {key}, key ∈ scope.channels.elems → ((delays.get key).getD 0 : ℚ) =
      waiting (build graph given) key * scale := by
    intro _ mem
    obtain ⟨_,held,exact⟩ := reached.delay mem
    rw [held]
    exact exact
  induction journey with
  | timer | source =>
    unfold scaledPath scaledPath pathDelay pathDelay
    push_cast
    rw [single inside,add_zero,add_zero]
  | @step key next edge id keys found produced input _ ih =>
    have mem := reached.closed.producers inside id
      ((producerOn_fromGraph found).trans produced)
    unfold scaledPath pathDelay
    push_cast
    rw [single inside,ih (reached.inputs sound mem input),add_mul]

variable (pinned : ∀ id ∈ scope.nodes.elems, ∀ node,
  (Model.fromGraph graph).nodes.get id = some node →
    Pinned (Model.fromGraph graph) delays age id node)
include pinned

theorem Reached.path_le (journey : Journey graph key keys) (inside : key ∈ scope.channels.elems) :
    scaledPath delays keys ≤
      arrivalAge (Model.fromGraph graph) age key ((delays.get key).getD 0) := by
  induction journey with
  | @timer key edge source rate found producer =>
    unfold scaledPath scaledPath arrivalAge
    have none : (Model.fromGraph graph).producerOn key = none := by
      rw [producerOn_fromGraph found]
      cases produced : edge.source.producerNode with
      | none => rfl
      | some =>
        obtain ⟨_,same⟩ := producerOf_eq_node.mp produced
        rw [producer] at same
        cases same
    rw [none]
    dsimp only
    omega
  | @source key edge id found produced known idle =>
    have on := (producerOn_fromGraph found).trans produced
    have zero := (pinned id (reached.closed.producers inside id on) _
      (node_fromGraph known)).idle idle
    unfold scaledPath scaledPath arrivalAge
    rw [on]
    dsimp only
    omega
  | @step key next edge id keys found produced input _ ih =>
    have on := (producerOn_fromGraph found).trans produced
    have mem := reached.closed.producers inside id on
    have nextInside := reached.inputs sound mem input
    obtain ⟨delay,held,_⟩ := reached.delay nextInside
    have below := (pinned id mem _ (node_fromGraph (reached.known sound mem))).above
      next input delay held
    have shorter := ih nextInside
    rw [held,getD_some] at shorter
    unfold scaledPath arrivalAge
    rw [on]
    dsimp only
    omega

theorem Reached.attained_on (inside : key ∈ scope.channels.elems) {edge : Edge}
    (found : graph.edges.get key = some edge)
    (before : ∀ id, edge.source.producerNode = some id → graph.edgesInto id ≠ [] →
      ∃ next ∈ graph.edgesInto id, ∃ keys, Journey graph next keys ∧
        age id = scaledPath delays keys) :
    ∃ keys, Journey graph key keys ∧ scaledPath delays keys =
      arrivalAge (Model.fromGraph graph) age key ((delays.get key).getD 0) := by
  have on := producerOn_fromGraph found
  cases produced : edge.source.producerNode with
  | none =>
    obtain ⟨rate,arrives⟩ := reached.arrives inside
    have timer : ∃ source rate, producerOf edge.source = .timer source rate := by
      cases producer : producerOf edge.source with
      | node id output =>
        rw [producerOf_eq_node.mpr ⟨output,producer⟩] at produced
        cases produced
      | timer source rate => exact ⟨source,rate,rfl⟩
      | aperiodic source =>
        obtain ⟨_,same,value⟩ := arrives_fromGraph.mp arrives
        rw [found] at same
        cases same
        have silent : (Channel.fromEdge edge).producer = .aperiodic source := producer
        unfold DerivedRates.arrivalRate at value
        rw [silent] at value
        cases value
    obtain ⟨_,_,producer⟩ := timer
    refine ⟨[key],.timer found producer,?_⟩
    unfold scaledPath scaledPath arrivalAge
    rw [on,produced]
    dsimp only
    omega
  | some id =>
    have mem := reached.closed.producers inside id (on.trans produced)
    have known := reached.known sound mem
    by_cases idle : graph.edgesInto id = []
    · refine ⟨[key],.source found produced known idle,?_⟩
      have zero := (pinned id mem _ (node_fromGraph known)).idle idle
      unfold scaledPath scaledPath arrivalAge
      rw [on,produced]
      dsimp only
      omega
    · obtain ⟨_,input,keys,journey,_⟩ := before id produced idle
      refine ⟨key :: keys,.step found produced input journey,?_⟩
      unfold scaledPath arrivalAge
      rw [on,produced]
      dsimp only
      omega

theorem Reached.attained : ∀ id ∈ scope.nodes.elems, graph.edgesInto id ≠ [] →
    ∃ next ∈ graph.edgesInto id, ∃ keys, Journey graph next keys ∧
      age id = scaledPath delays keys := by
  apply @Sweep.acyclic_induct NodeId (Leads graph) {id | id ∈ scope.nodes.elems}
    (finite_toSet scope.nodes.elems) (fun leads mem => reached.upstream sound leads mem)
    (fun id mem circle => reached.free sound mem (.cycle circle))
    (fun id => graph.edgesInto id ≠ [] → ∃ next ∈ graph.edgesInto id, ∃ keys,
      Journey graph next keys ∧ age id = scaledPath delays keys)
  intro id mem before fed
  obtain ⟨key,input,_,held,same⟩ :=
    (pinned id mem _ (node_fromGraph (reached.known sound mem))).attained fed
  obtain ⟨⟨edge,found⟩,used⟩ := DataflowGraph.mem_edgesInto.mp input
  obtain ⟨keys,journey,total⟩ := reached.attained_on sound pinned
    (reached.inputs sound mem input) found
    (fun producer produced => before producer ⟨key,edge,found,produced,used⟩)
  rw [held,getD_some,← same] at total
  exact ⟨key,input,keys,journey,total.symm⟩

end Rated

end Verdict

section Halves

variable {budget : Int} {system : ConstraintSystem}

section

variable (wired : Wired graph) (ports : PortsWired graph)
  (reached : dischargeOne (build graph given) goal budget = .ok system)
include wired ports reached

/-- A path beyond the budget is found by the solver: the ages that solve the recurrence are at
least as great. -/
theorem satisfiable_of_late (journey : Journey graph goal keys)
    (late : budget < pathDelay (build graph given) keys) : system.IsSatisfiable := by
  obtain ⟨sound,_⟩ := @derive_sound graph given wired ports
  obtain ⟨_,scale,delays,_,_,behind,recurrence,held,rfl⟩ := dischargeOne_ok reached
  have inside := behind.closed.target
  obtain ⟨age,pinned⟩ := behind.exists_ages sound
  refine ⟨fun name => age (name.drop 4),?_⟩
  rw [satisfies_assert,holds_gt,value_ofInt,
    value_arrivalTerm (behind.closed.producers inside),
    encodeRecurrence_iff behind.closed recurrence]
  refine ⟨⟨declareAges_satisfies,pinned⟩,?_⟩
  have below := behind.path_le sound pinned journey inside
  have exact := behind.scaledPath_eq sound journey inside
  rw [held,getD_some] at below
  have exceeds : (budget : ℚ) * scale < scaledPath delays keys := by
    rw [exact]
    exact mul_lt_mul_of_pos_right late (Nat.cast_pos.mpr behind.positive)
  apply lt_of_lt_of_le _ below
  exact_mod_cast exceeds

/-- What the solver finds is a path beyond the budget: the age on arrival is attained. -/
theorem late_of_satisfiable (satisfiable : system.IsSatisfiable) :
    ∃ keys, Journey graph goal keys ∧
      budget < pathDelay (build graph given) keys := by
  obtain ⟨sound,_⟩ := @derive_sound graph given wired ports
  obtain ⟨_,scale,delays,_,_,behind,recurrence,held,rfl⟩ := dischargeOne_ok reached
  have inside := behind.closed.target
  have producers := behind.closed.producers inside
  obtain ⟨_,satisfies⟩ := satisfiable
  rw [satisfies_assert,holds_gt,value_ofInt,
    value_arrivalTerm producers,encodeRecurrence_iff behind.closed recurrence] at satisfies
  obtain ⟨⟨_,pinned⟩,exceeds⟩ := satisfies
  obtain ⟨_,arrives⟩ := behind.arrives inside
  obtain ⟨_,found,_⟩ := arrives_fromGraph.mp arrives
  obtain ⟨keys,journey,total⟩ := behind.attained_on sound pinned inside found
    (fun id produced => behind.attained sound pinned id
      (producers id ((producerOn_fromGraph found).trans produced)))
  refine ⟨keys,journey,?_⟩
  have exact := behind.scaledPath_eq sound journey inside
  rw [held,getD_some] at total
  have longer : budget * scale < scaledPath delays keys := lt_of_lt_of_eq exceeds total.symm
  apply lt_of_mul_lt_mul_right _ (Nat.cast_nonneg scale : (0 : ℚ) ≤ scale)
  rw [← exact]
  exact_mod_cast longer

end

end Halves

/-- A system that reaches the solver is unsatisfiable exactly when, for every path from a source or
a timer to the target, the sum over its channels of effective capacity over arrival rate is within
the budget. -/
theorem latency_worst_path (graph : DataflowGraph) (declared : OrderedMap NodeId Rate)
    (wired : Wired graph) (ports : PortsWired graph) (target : EdgeKey) (budget : Int)
    (system : ConstraintSystem)
    (reached : dischargeOne (RatedModel.build graph declared) target budget = .ok system) :
    ¬ system.IsSatisfiable ↔ ∀ keys, Journey graph target keys →
      pathDelay (RatedModel.build graph declared) keys ≤ budget := by
  constructor
  · intro unsatisfiable _ journey
    by_contra late
    exact unsatisfiable (satisfiable_of_late wired ports reached journey (not_le.mp late))
  · intro within satisfiable
    obtain ⟨keys,journey,late⟩ := late_of_satisfiable wired ports reached satisfiable
    exact absurd late (not_lt.mpr (within keys journey))

/-- The paths to the first input of the detector: one, over the camera and its timer. -/
theorem cameraTwice_journey
    (journey : Journey cameraTwice ⟨['d'],['f']⟩ keys) : keys = [⟨['d'],['f']⟩,⟨['c'],['t']⟩] := by
  have frames : (cameraTwice.edges.get ⟨['d'],['f']⟩).map Edge.source =
      some (.nodeOutput ['c'] ['o']) := by decide +kernel
  have ticks : (cameraTwice.edges.get ⟨['c'],['t']⟩).bind (fun edge => edge.source.producerNode) =
      none := by decide +kernel
  have inputs : cameraTwice.edgesInto ['c'] = [⟨['c'],['t']⟩] := by decide +kernel
  have camera : ∀ {edge id}, cameraTwice.edges.get ⟨['d'],['f']⟩ = some edge →
      edge.source.producerNode = some id → id = ['c'] := by
    intro _ _ found produced
    rw [found,Option.map_some,Option.some.injEq] at frames
    rw [frames] at produced
    exact (Option.some.inj produced).symm
  cases journey with
  | timer found producer =>
    rw [found,Option.map_some,Option.some.injEq] at frames
    rw [frames] at producer
    cases producer
  | source found produced _ idle =>
    rw [camera found produced,inputs] at idle
    cases idle
  | step found produced input onward =>
    rw [camera found produced,inputs,mem_singleton] at input
    subst input
    cases onward with
    | timer | source => rfl
    | step tick produced =>
      rw [tick,bind_some,produced] at ticks
      cases ticks

theorem waiting_eq {capacity : Nat}
    (held : (model.channels.get key).map Channel.effectiveCapacity = some capacity)
    (arrives : model.arrivalRate key = some rate) :
    waiting model key = capacity * nanosPerSec / rate.value := by
  obtain ⟨_,found,same⟩ := Option.map_eq_some_iff.mp held
  unfold waiting
  rw [found,arrives,← same]

/-- Forty milliseconds to the detector, within a budget of fifty. -/
theorem camera_within_budget : (Wired cameraTwice ∧ PortsWired cameraTwice) ∧
      ∃ system, dischargeOne (RatedModel.build cameraTwice .empty) ⟨['d'],['f']⟩ 50000000 =
          .ok system ∧ ¬ system.IsSatisfiable := by
  have fits : Wired cameraTwice ∧ PortsWired cameraTwice := by
    apply wired_of_entries
    · decide +kernel
    · decide +kernel
  have encoded : (dischargeOne (build cameraTwice .empty)
      ⟨['d'],['f']⟩ 50000000).toOption.isSome = true := by decide +kernel
  cases reached : dischargeOne (build cameraTwice .empty) ⟨['d'],['f']⟩ 50000000 with
  | error =>
    rw [reached] at encoded
    cases encoded
  | ok system =>
    refine ⟨fits,system,rfl,?_⟩
    rw [latency_worst_path cameraTwice .empty fits.1 fits.2 _ _ system reached]
    intro _ journey
    rw [cameraTwice_journey journey]
    have frames : waiting (build cameraTwice .empty) ⟨['d'],['f']⟩ = _ :=
      @waiting_eq _ _ ⟨50,1,by decide,by decide⟩ 1 (by decide +kernel) (by decide +kernel)
    have ticks : waiting (build cameraTwice .empty) ⟨['c'],['t']⟩ = _ :=
      @waiting_eq _ _ ⟨50,1,by decide,by decide⟩ 1 (by decide +kernel) (by decide +kernel)
    unfold pathDelay pathDelay pathDelay
    rw [frames,ticks]
    unfold Rate.value nanosPerSec
    norm_num

/-- A node that reads a slow timer over a deep queue and a fast one. -/
def twoClocks : DataflowGraph :=
  let hertz := fun digit : Char => EdgeSource.virtual
    ['a','s','t','r','s','/','t','i','m','e','r','/','h','z','/',digit]
  { nodes := ofList [(['n'],.plain [] [['a'],['b']] none)]
    edges := ofList [(⟨['n'],['a']⟩,⟨hertz '1',⟨10,.dropOldest⟩⟩),
        (⟨['n'],['b']⟩,⟨hertz '9',⟨1,.dropOldest⟩⟩)]
    strictTypes := false
    typeRules := [] }

/-- The wait on a channel if its queue were drained at the rate at which its consumer fires. -/
def served (model : RatedModel) (key : EdgeKey) : ℚ :=
  match model.channels.get key, model.rates.rateOf key.consumer with
  | some channel,some rate => channel.effectiveCapacity * nanosPerSec / rate.value
  | _,_ => 0

def servicePath (model : RatedModel) : List EdgeKey → ℚ
  | [] => 0
  | key :: keys => served model key + servicePath model keys

theorem twoClocks_journey
    (journey : Journey twoClocks ⟨['n'],['a']⟩ keys) : keys = [⟨['n'],['a']⟩] := by
  have ticks : (twoClocks.edges.get ⟨['n'],['a']⟩).bind (fun edge => edge.source.producerNode) =
      none := by decide +kernel
  cases journey with
  | timer | source => rfl
  | step found produced =>
    rw [found,bind_some,produced] at ticks
    cases ticks

/-- The node fires ten times a second, so ten messages would be served in one second; but the slow
timer fills the queue only once a second, and the budget of five seconds is reported as missed. -/
theorem clocks_beyond_budget : (Wired twoClocks ∧ PortsWired twoClocks) ∧
      (∀ keys, Journey twoClocks ⟨['n'],['a']⟩ keys →
        servicePath (RatedModel.build twoClocks .empty) keys ≤ ((5000000000 : Int) : ℚ)) ∧
      ∃ system, dischargeOne (RatedModel.build twoClocks .empty) ⟨['n'],['a']⟩ 5000000000 =
          .ok system ∧ system.IsSatisfiable := by
  have fits : Wired twoClocks ∧ PortsWired twoClocks := by
    apply wired_of_entries
    · decide +kernel
    · decide +kernel
  have held : ((build twoClocks .empty).channels.get ⟨['n'],['a']⟩).map
      Channel.effectiveCapacity = some 10 := by decide +kernel
  have encoded : (dischargeOne (build twoClocks .empty)
      ⟨['n'],['a']⟩ 5000000000).toOption.isSome = true := by decide +kernel
  refine ⟨fits,?_,?_⟩
  · intro _ journey
    have fires : (build twoClocks .empty).rates.rateOf ['n'] =
        some ⟨10,1,by decide,by decide⟩ := by decide +kernel
    obtain ⟨_,found,capacity⟩ := Option.map_eq_some_iff.mp held
    rw [twoClocks_journey journey]
    unfold servicePath servicePath served
    rw [found,fires]
    dsimp only [Rate.value,nanosPerSec]
    rw [capacity]
    norm_num
  · cases reached : dischargeOne (build twoClocks .empty) ⟨['n'],['a']⟩ 5000000000 with
    | error =>
      rw [reached] at encoded
      cases encoded
    | ok system =>
      refine ⟨system,rfl,?_⟩
      have tick : producerOf (.virtual ['a','s','t','r','s','/','t','i','m','e','r','/',
          'h','z','/','1']) = .timer _ ⟨1,1,by decide,by decide⟩ := rfl
      apply satisfiable_of_late fits.1 fits.2 reached (.timer rfl tick)
      have ticks := @waiting_eq _ (build twoClocks .empty)
        ⟨1,1,by decide,by decide⟩ 10 held (by decide +kernel)
      unfold pathDelay pathDelay
      rw [ticks]
      unfold Rate.value nanosPerSec
      norm_num

end Astrs.Verify
