/-
Strongly connected components by Tarjan's algorithm.

The stack is kept with its top first.  A visit is given fuel; one unit for each node that
has no number yet is enough.
-/

import Mathlib.Data.List.Sort
import Astrs.Base.Ordered

namespace Astrs.Base

variable {α : Type} [LinearOrder α]

structure Tarjan (α : Type) [LinearOrder α] where
  nextIndex : Nat
  index : OrderedMap α Nat
  lowlink : OrderedMap α Nat
  onStack : OrderedSet α
  stack : List α
  sccs : List (List α)

namespace Tarjan

def new : Tarjan α where
  nextIndex := 0
  index := OrderedMap.empty
  lowlink := OrderedMap.empty
  onStack := OrderedSet.empty
  stack := []
  sccs := []

/-- Numbers a node and puts it on the stack. -/
def enter (state : Tarjan α) (node : α) : Tarjan α where
  nextIndex := state.nextIndex + 1
  index := state.index.insert node state.nextIndex
  lowlink := state.lowlink.insert node state.nextIndex
  onStack := state.onStack.insert node
  stack := node :: state.stack
  sccs := state.sccs

def lower (state : Tarjan α) (node : α) (bound : Nat) : Tarjan α :=
  { state with lowlink := state.lowlink.adjust node (min · bound) }

/-- The stack down to a node, and what is left below it. -/
def popThrough (node : α) : List α → List α × List α
  | [] => ([],[])
  | top :: below =>
    if top = node then ([top],below)
    else ((top :: (popThrough node below).1),(popThrough node below).2)

/-- Takes the component off the stack when the node is the root of one. -/
def close (state : Tarjan α) (node : α) : Tarjan α :=
  match state.index.get node, state.lowlink.get node with
  | some number,some low =>
    if low = number then
      let popped := popThrough node state.stack
      { state with
        onStack := popped.1.foldl OrderedSet.remove state.onStack
        stack := popped.2
        sccs := state.sccs ++ [popped.1.insertionSort (· ≤ ·)] }
    else state
  | _,_ => state

def follow (visit : α → Tarjan α → Option (Tarjan α)) (node : α) (state : Tarjan α) (next : α) :
    Option (Tarjan α) :=
  match state.index.get next with
  | none => do
    let after ← visit next state
    return after.lower node ((after.lowlink.get next).getD 18446744073709551615)
  | some number =>
    if state.onStack.contains next then some (state.lower node number) else some state

def strongconnect (successors : α → List α) : Nat → α → Tarjan α → Option (Tarjan α)
  | 0,_,_ => none
  | fuel + 1,node,state => do
    let after ← (successors node).foldlM (follow (strongconnect successors fuel) node)
      (state.enter node)
    return after.close node

/-- Visits every node that no earlier visit has reached. -/
def run (successors : α → List α) (fuel : Nat) (nodes : List α) : Option (Tarjan α) :=
  nodes.foldlM (fun state node =>
    if (state.index.get node).isSome then some state else strongconnect successors fuel node state)
    new

/-- Orders components by their first members, an empty one first. -/
def firstLe : List α → List α → Bool
  | [],_ => true
  | _ :: _,[] => false
  | left :: _,right :: _ => decide (left ≤ right)

def components (state : Tarjan α) : List (List α) :=
  state.sccs.insertionSort fun left right => firstLe left right = true

/-- A path, possibly of no edge at all. -/
abbrev Reaches (successors : α → List α) : α → α → Prop :=
  Relation.ReflTransGen fun source target => target ∈ successors source

def Numbered (state : Tarjan α) (node : α) : Prop := ∃ number, state.index.get node = some number

/-- The number of a node, older nodes having the smaller ones. -/
def rank (state : Tarjan α) (node : α) : Nat := (state.index.get node).getD 0

variable {node : α} {before after : Tarjan α} {state : Tarjan α}

theorem rank_eq {number : Nat}
    (found : state.index.get node = some number) : state.rank node = number := by
  unfold rank
  rw [found]
  rfl

theorem get_rank (numbered : state.Numbered node) :
    state.index.get node = some (state.rank node) := by
  obtain ⟨_,found⟩ := numbered
  rw [found,rank_eq found]

theorem not_numbered : ¬ state.Numbered node ↔ state.index.get node = none := by
  unfold Numbered
  cases state.index.get node <;> simp

/-- What the state says about the graph while the nodes in `gray` are being visited. -/
structure Sound (successors : α → List α) (nodes gray : List α) (state : Tarjan α) : Prop where
  known : ∀ node, state.Numbered node → node ∈ nodes
  numbers : ∀ node number, state.index.get node = some number → number < state.nextIndex
  flagged : ∀ node, node ∈ state.onStack.elems ↔ node ∈ state.stack
  descending : state.stack.Pairwise fun newer older => state.rank older < state.rank newer
  placed : ∀ node, state.Numbered node ↔
    node ∈ state.stack ∨ ∃ component ∈ state.sccs, node ∈ component
  apart : ∀ node ∈ state.stack, ∀ component ∈ state.sccs, node ∉ component
  disjoint : state.sccs.Pairwise fun left right => ∀ node ∈ left, node ∉ right
  sorted : ∀ component ∈ state.sccs, component.Pairwise (· < ·)
  grayOnStack : ∀ node ∈ gray, node ∈ state.stack
  downward : ∀ older ∈ state.stack, ∀ newer ∈ state.stack, state.rank older ≤ state.rank newer →
    Reaches successors older newer
  upward : ∀ node ∈ state.stack, ∃ root ∈ gray, state.rank root ≤ state.rank node ∧
    Reaches successors node root
  finished : ∀ node, state.Numbered node → node ∉ gray → ∀ next ∈ successors node,
    state.Numbered next
  maximal : ∀ component ∈ state.sccs, ∀ node ∈ component, ∀ other,
    other ∈ component ↔ Reaches successors node other ∧ Reaches successors other node

variable {edges : α → List α} {nodes gray : List α} {state : Tarjan α}

theorem Sound.numbered_of_mem (sound : Sound edges nodes gray state)
    (mem : node ∈ state.stack) : state.Numbered node :=
  (sound.placed node).mpr (.inl mem)

theorem Sound.nodup (sound : Sound edges nodes gray state) : state.stack.Nodup :=
  sound.descending.imp fun less same => by
    rw [same] at less
    exact absurd less (Nat.lt_irrefl _)

theorem sound_new : Sound edges nodes [] (new : Tarjan α) where
  known := by
    rintro _ ⟨_,⟨⟩⟩
  numbers := nofun
  flagged := fun _ => Iff.rfl
  descending := .nil
  placed := by
    intro _
    constructor
    · rintro ⟨_,⟨⟩⟩
    · rintro (mem | ⟨_,mem,_⟩) <;> cases mem
  apart := nofun
  disjoint := .nil
  sorted := nofun
  grayOnStack := nofun
  downward := nofun
  upward := nofun
  finished := by
    rintro _ ⟨_,⟨⟩⟩
  maximal := nofun

/-! ### Numbers only grow -/

/-- Numbers stay, and so do the low links of the nodes that had one. -/
structure Extends (before after : Tarjan α) : Prop where
  numbers : ∀ node number, before.index.get node = some number → after.index.get node = some number
  lowlinks : ∀ node, before.Numbered node → after.lowlink.get node = before.lowlink.get node

theorem Extends.numbered (grown : Extends before after)
    (numbered : before.Numbered node) : after.Numbered node := by
  obtain ⟨number,found⟩ := numbered
  exact ⟨number,grown.numbers node number found⟩

theorem Extends.rank (grown : Extends before after)
    (numbered : before.Numbered node) : after.rank node = before.rank node :=
  rank_eq (grown.numbers node _ (get_rank numbered))

theorem Extends.trans {first second third : Tarjan α} (early : Extends first second)
    (late : Extends second third) : Extends first third where
  numbers := fun node number found => late.numbers node number (early.numbers node number found)
  lowlinks := fun node numbered => by
    rw [late.lowlinks node (early.numbered numbered),early.lowlinks node numbered]

theorem index_enter (state : Tarjan α) (node other : α) : (state.enter node).index.get other =
      if node = other then some state.nextIndex else state.index.get other :=
  OrderedMap.get_insert _ _ _ _

theorem extends_enter (fresh : ¬ state.Numbered node) : Extends state (state.enter node) where
  numbers := by
    intro _ number found
    rw [index_enter,if_neg]
    · exact found
    · intro same
      rw [← same] at found
      exact fresh ⟨number,found⟩
  lowlinks := by
    intro other numbered
    change (state.lowlink.insert node state.nextIndex).get other = _
    rw [OrderedMap.get_insert,if_neg]
    intro same
    rw [← same] at numbered
    exact fresh numbered

theorem numbered_enter {other : α} :
    (state.enter node).Numbered other ↔ other = node ∨ state.Numbered other := by
  unfold Numbered
  rw [index_enter]
  by_cases same : node = other
  · rw [if_pos same]
    exact ⟨fun _ => .inl same.symm,fun _ => ⟨_,rfl⟩⟩
  · rw [if_neg same]
    exact ⟨.inr,fun either => either.resolve_left fun equal => same equal.symm⟩

theorem Sound.enter (sound : Sound edges nodes gray state) (mem : node ∈ nodes)
    (fresh : ¬ state.Numbered node) (reached : ∀ root ∈ gray, Reaches edges root node) :
    Sound edges nodes (node :: gray) (state.enter node) := by
  have grown := extends_enter fresh
  have newest : (state.enter node).rank node = state.nextIndex :=
    rank_eq (by rw [index_enter,if_pos rfl])
  have kept : ∀ other ∈ state.stack, (state.enter node).rank other = state.rank other :=
    fun other mem => grown.rank (sound.numbered_of_mem mem)
  have older : ∀ other ∈ state.stack, state.rank other < state.nextIndex :=
    fun other mem => sound.numbers other _ (get_rank (sound.numbered_of_mem mem))
  -- Every node of the stack reaches a visited node, which reaches the new one.
  have arrives : ∀ other ∈ state.stack, Reaches edges other node := by
    intro other mem
    obtain ⟨root,inGray,_,path⟩ := sound.upward other mem
    exact path.trans (reached root inGray)
  constructor
  case known =>
    intro other numbered
    rcases numbered_enter.mp numbered with rfl | earlier
    · exact mem
    · exact sound.known other earlier
  case numbers =>
    intro other number found
    rw [index_enter] at found
    split at found
    · cases found
      exact Nat.lt_succ_self _
    · exact Nat.lt_succ_of_lt (sound.numbers other number found)
  case flagged =>
    intro other
    change other ∈ (state.onStack.insert node).elems ↔ other ∈ node :: state.stack
    rw [OrderedSet.mem_insert,List.mem_cons,sound.flagged]
  case descending =>
    refine List.Pairwise.cons ?_ ?_
    · intro other mem
      rw [newest,kept other mem]
      exact older other mem
    · apply sound.descending.imp_of_mem
      intro newer old newerIn oldIn less
      rw [kept newer newerIn,kept old oldIn]
      exact less
  case placed =>
    intro other
    rw [numbered_enter,sound.placed]
    change _ ↔ other ∈ node :: state.stack ∨ _
    rw [List.mem_cons,or_assoc]
    rfl
  case apart =>
    refine List.forall_mem_cons.mpr ⟨?_,sound.apart⟩
    intro scc inSccs inside
    exact fresh ((sound.placed node).mpr (.inr ⟨scc,inSccs,inside⟩))
  case disjoint => exact sound.disjoint
  case sorted => exact sound.sorted
  case grayOnStack =>
    refine List.forall_mem_cons.mpr ⟨List.mem_cons_self,?_⟩
    exact fun other mem => List.mem_cons_of_mem _ (sound.grayOnStack other mem)
  case downward =>
    intro first firstIn second secondIn order
    change first ∈ node :: state.stack at firstIn
    change second ∈ node :: state.stack at secondIn
    rw [List.mem_cons] at firstIn secondIn
    rcases firstIn with rfl | firstIn <;> rcases secondIn with rfl | secondIn
    · exact .refl
    · rw [newest,kept second secondIn] at order
      exact absurd (older second secondIn) (Nat.not_lt.mpr order)
    · exact arrives first firstIn
    · rw [kept first firstIn,kept second secondIn] at order
      exact sound.downward first firstIn second secondIn order
  case upward =>
    refine List.forall_mem_cons.mpr ⟨⟨node,List.mem_cons_self,Nat.le_refl _,.refl⟩,?_⟩
    intro other below
    obtain ⟨root,inGray,order,path⟩ := sound.upward other below
    refine ⟨root,List.mem_cons_of_mem _ inGray,?_,path⟩
    rw [kept root (sound.grayOnStack root inGray),kept other below]
    exact order
  case finished =>
    intro other numbered notGray next edge
    rw [List.mem_cons,not_or] at notGray
    rw [numbered_enter] at numbered ⊢
    exact .inr (sound.finished other (numbered.resolve_left notGray.1) notGray.2 next edge)
  case maximal => exact sound.maximal

end Tarjan

end Astrs.Base
