/-
The topology requests on one dataflow, and its records in the mutation log.

A request commits its operations to the tracked graph under a lock and records them one by
one once the lock is released, so another request may come in between.
-/

import Mathlib.Order.Basic

namespace Astrs.Coordinator

open List

/-- `pending` holds what each request has still to record, in the order the requests committed.
`applied` is history: every operation applied to the graph, with its request. -/
structure Topology (Graph Op : Type) where
  graph : Graph
  pending : List (List Op) := []
  applied : List (Nat × Op) := []
  log : List (Nat × Op) := []

/-- A request commits the operations it builds from the graph it finds, or none when one of its
checks fails.  Recording an operation may fail, and then the request goes on with the next. -/
inductive TopologyStep (Graph Op : Type)
  | commit (build : Graph → Option (List Op))
  | record (request : Nat) (stored : Bool)

namespace Topology

variable {Graph Op : Type} (apply : Graph → List Op → Option Graph)

def commit (state : Topology Graph Op) (ops : List Op) (candidate : Graph) : Topology Graph Op :=
  { state with
    graph := candidate
    pending := state.pending ++ [ops]
    applied := state.applied ++ ops.map fun op => (state.pending.length,op) }

def step (state : Topology Graph Op) : TopologyStep Graph Op → Topology Graph Op
  | .commit build =>
    match build state.graph with
    | none => state
    | some ops =>
      match apply state.graph ops with
      | none => state
      | some candidate => state.commit ops candidate
  | .record request stored =>
    match state.pending[request]? with
    | some (op :: rest) =>
      { state with
        pending := state.pending.set request rest
        log := if stored then state.log ++ [(request,op)] else state.log }
    | _ => state

def run (graph : Graph) (steps : List (TopologyStep Graph Op)) : Topology Graph Op :=
  steps.foldl (step apply) { graph := graph }

/-- A request commits only when every earlier one has recorded all it applied. -/
def Serial (state : Topology Graph Op) : TopologyStep Graph Op → Prop
  | .commit _ => ∀ ops ∈ state.pending, ops = []
  | .record _ _ => True

def AllSerial : Topology Graph Op → List (TopologyStep Graph Op) → Prop
  | _,[] => True
  | state,first :: rest => state.Serial first ∧ (step apply state first).AllSerial rest

/-- What a request has still to record is the end of what was applied, and all that was recorded
lies before it. -/
structure InOrder (state : Topology Graph Op) : Prop where
  log : state.log.Sublist state.applied
  ahead : ∀ request ops, state.pending[request]? = some ops → ops ≠ [] → ∃ done,
    state.applied = done ++ ops.map (fun op => (request,op)) ∧ state.log.Sublist done
  requests : state.applied.Pairwise fun earlier later => earlier.1 ≤ later.1
  known : ∀ entry ∈ state.applied, entry.1 < state.pending.length

theorem InOrder.commit {state : Topology Graph Op} (inOrder : state.InOrder)
    (recorded : ∀ ops ∈ state.pending, ops = []) (ops : List Op) (candidate : Graph) :
    (state.commit ops candidate).InOrder := by
  constructor
  case log => exact inOrder.log.trans (sublist_append_left _ _)
  case ahead =>
    intro request others found unrecorded
    change (state.pending ++ [ops])[request]? = some others at found
    rw [List.getElem?_append] at found
    split at found
    · exact absurd (recorded others (mem_of_getElem? found)) unrecorded
    · rename_i past
      rw [List.getElem?_singleton] at found
      split at found
      · cases found
        have last : request = state.pending.length := by omega
        subst last
        exact ⟨state.applied,rfl,inOrder.log⟩
      · cases found
  case requests =>
    refine pairwise_append.mpr ⟨inOrder.requests,?_,?_⟩
    · exact pairwise_map.mpr (pairwise_of_forall fun _ _ => Nat.le_refl _)
    · intro earlier held _ new
      obtain ⟨op,_,rfl⟩ := mem_map.mp new
      exact Nat.le_of_lt (inOrder.known earlier held)
  case known =>
    intro entry member
    change entry.1 < (state.pending ++ [ops]).length
    rw [length_append,length_singleton]
    rcases mem_append.mp member with old | new
    · exact Nat.lt_succ_of_lt (inOrder.known entry old)
    · obtain ⟨_,_,rfl⟩ := mem_map.mp new
      exact Nat.lt_succ_self _

theorem last_request (done : List (Nat × Op)) (request : Nat) {ops : List Op}
    (unrecorded : ops ≠ []) :
    (done ++ ops.map fun op => (request,op)).getLast?.map Prod.fst = some request := by
  obtain ⟨_,_,rfl⟩ := (eq_nil_or_concat ops).resolve_left unrecorded
  simp

section

variable {state : Topology Graph Op} (inOrder : state.InOrder)
include inOrder

theorem InOrder.record {request : Nat} {op : Op} {rest : List Op}
    (found : state.pending[request]? = some (op :: rest)) (stored : Bool) : InOrder
      { state with
        pending := state.pending.set request rest
        log := if stored then state.log ++ [(request,op)] else state.log } := by
  obtain ⟨done,split,before⟩ := inOrder.ahead request _ found (cons_ne_nil op rest)
  have whole : state.applied = done ++ [(request,op)] ++ rest.map fun op => (request,op) := by
    rw [split,append_assoc]
    rfl
  have logged : (if stored then state.log ++ [(request,op)] else state.log).Sublist
      (done ++ [(request,op)]) := by
    cases stored with
    | true => exact before.append (List.Sublist.refl _)
    | false => exact before.trans (sublist_append_left _ _)
  constructor
  case log =>
    change List.Sublist _ state.applied
    rw [whole]
    exact logged.trans (sublist_append_left _ _)
  case ahead =>
    intro other ops held unrecorded
    change (state.pending.set request rest)[other]? = some ops at held
    by_cases same : request = other
    · subst same
      rw [List.getElem?_set_self (List.getElem?_eq_some_iff.mp found).1] at held
      cases held
      exact ⟨_,whole,logged⟩
    · rw [List.getElem?_set_ne same] at held
      obtain ⟨others,ends,_⟩ := inOrder.ahead other ops held unrecorded
      have own := last_request done request (cons_ne_nil op rest)
      rw [← split,ends,last_request others other unrecorded] at own
      exact absurd (Option.some.inj own).symm same
  case requests => exact inOrder.requests
  case known =>
    change ∀ entry ∈ state.applied, entry.1 < (state.pending.set request rest).length
    rw [length_set]
    exact inOrder.known

theorem InOrder.step {taken : TopologyStep Graph Op} (serial : state.Serial taken) :
    (step apply state taken).InOrder := by
  cases taken with
  | commit =>
    unfold Topology.step
    dsimp only
    split
    case h_1 => exact inOrder
    case h_2 ops _ =>
      split
      case h_1 => exact inOrder
      case h_2 candidate _ => exact inOrder.commit serial ops candidate
  | record request stored =>
    unfold Topology.step
    dsimp only
    split
    case h_1 op rest found => exact inOrder.record found stored
    case h_2 => exact inOrder

theorem InOrder.steps (steps : List (TopologyStep Graph Op)) (serial : AllSerial apply state steps)
    : (steps.foldl (Topology.step apply) state).InOrder := by
  induction steps generalizing state with
  | nil => exact inOrder
  | cons first rest ih => exact ih (inOrder.step apply serial.1) serial.2

end

/-- The records of a dataflow stand in the order its operations were applied, those of one
request next to one another, as long as a request commits only after the earlier ones have
recorded all they applied. -/
theorem logged_in_commit_order (graph : Graph) (steps : List (TopologyStep Graph Op))
    (serial : AllSerial apply { graph := graph } steps) :
    (run apply graph steps).log.Sublist (run apply graph steps).applied ∧
      (run apply graph steps).log.Pairwise fun earlier later => earlier.1 ≤ later.1 := by
  have fresh : InOrder ({ graph := graph } : Topology Graph Op) := ⟨.refl _,nofun,.nil,nofun⟩
  have inOrder := fresh.steps apply steps serial
  exact ⟨inOrder.log,inOrder.requests.sublist inOrder.log⟩

end Topology

def adds (op : Nat) : TopologyStep (List Nat) Nat := .commit fun _ => some [op]

def wired (graph ops : List Nat) : Option (List Nat) := some (graph ++ ops)

theorem two_requests_logged :
    Topology.AllSerial wired { graph := [] } [adds 1,.record 0 true,adds 2,.record 1 true] ∧
      (Topology.run wired [] [adds 1,.record 0 true,adds 2,.record 1 true]).log.Sublist
        [(0,1),(1,2)] := by
  have serial : Topology.AllSerial wired { graph := [] }
      [adds 1,.record 0 true,adds 2,.record 1 true] :=
    ⟨nofun,trivial,fun _ => mem_singleton.mp,trivial,trivial⟩
  exact ⟨serial,(Topology.logged_in_commit_order wired [] _ serial).1⟩

/-- Two requests commit, and the second is the first to record. -/
theorem records_swapped :
    (Topology.run wired [] [adds 1,adds 2,.record 1 true,.record 0 true]).applied = [(0,1),(1,2)] ∧
      (Topology.run wired [] [adds 1,adds 2,.record 1 true,.record 0 true]).log =
        [(1,2),(0,1)] := by
  decide

end Astrs.Coordinator
