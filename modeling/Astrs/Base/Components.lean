/-
Tarjan's algorithm finds the strongly connected components.

A visit leaves on the stack only nodes that can get back to an older one.  The low link
is a node's own number exactly when its component is complete.
-/

import Astrs.Base.Tarjan

namespace Astrs.Base

open List

namespace Tarjan

variable {α : Type} [LinearOrder α] {links : α → List α} {nodes gray : List α}
  {state : Tarjan α} {node : α} {found : List (List α)}

theorem lowlink_lower (state : Tarjan α) (node other : α) (bound : Nat) :
    (state.lower node bound).lowlink.get other =
      if node = other then (state.lowlink.get node).map (min · bound)
      else state.lowlink.get other := by
  change (state.lowlink.adjust node _).get other = _
  rw [OrderedMap.get_adjust]

/-! ### What a visit does -/

/-- After the visit of a node: the nodes left on the stack, and how low they lead. -/
structure Explored (successors : α → List α) (before after : Tarjan α) (node : α) (fresh : List α)
    (low : Nat) : Prop where
  grown : Extends before after
  stack : after.stack = fresh ++ before.stack
  seen : after.Numbered node
  bound : ∀ source ∈ fresh, ∀ target ∈ before.stack, target ∈ successors source →
    low ≤ after.rank target
  attained : (fresh = [] ∧ before.nextIndex ≤ low) ∨
    ∃ target ∈ before.stack, after.rank target = low ∧ Reaches successors node target

/-- While the edges out of a node are followed; those to `done` have been. -/
structure Underway (successors : α → List α) (nodes gray : List α) (before state : Tarjan α) (node : α)
    (done fresh : List α) (low : Nat) : Prop where
  sound : Sound successors nodes (node :: gray) state
  grown : Extends before state
  place : state.index.get node = some before.nextIndex
  stack : state.stack = fresh ++ node :: before.stack
  lowlink : state.lowlink.get node = some low
  below : low ≤ before.nextIndex
  attained : ∃ target ∈ state.stack, state.rank target = low ∧ Reaches successors node target
  bound : ∀ source ∈ fresh, ∀ target ∈ before.stack, target ∈ successors source →
    low ≤ state.rank target
  explored : ∀ next ∈ done, state.Numbered next ∧ (next ∈ before.stack → low ≤ state.rank next)

section

variable {before : Tarjan α} {done fresh : List α} {low : Nat}
  (live : Underway links nodes gray before state node done fresh low)
include live

theorem Underway.follow {next : α} (numbered : state.Numbered next)
    (bounds : next ∈ before.stack → low ≤ state.rank next) :
    Underway links nodes gray before state node (done ++ [next]) fresh low :=
  { live with
    explored := by
      intro other mem
      rw [mem_append,mem_singleton] at mem
      cases mem with
      | inl past => exact live.explored other past
      | inr same =>
        rw [same]
        exact ⟨numbered,bounds⟩ }

theorem Underway.root_numbered : state.Numbered node := ⟨before.nextIndex,live.place⟩

theorem Underway.mem_stack {goal : α} (mem : goal ∈ before.stack) : goal ∈ state.stack := by
  rw [live.stack]
  exact mem_append_right _ (mem_cons_of_mem _ mem)

/-- Following an edge, by a visit or to a node on the stack. -/
theorem Underway.visit {after : Tarjan α} {next : α} {added : List α} {lowNext : Nat}
    (fresher : ¬ before.Numbered node) (edge : next ∈ links node)
    (fits : next ∈ before.stack → lowNext ≤ after.rank next)
    (sound : Sound links nodes (node :: gray) after)
    (explored : Explored links state after next added lowNext) :
    Underway links nodes gray before (after.lower node lowNext) node (done ++ [next])
      (added ++ fresh) (min low lowNext) := by
  have ranks : ∀ other ∈ state.stack, after.rank other = state.rank other :=
    fun other mem => explored.grown.rank (live.sound.numbered_of_mem mem)
  have stacked : after.stack = (added ++ fresh) ++ node :: before.stack := by
    rw [explored.stack,live.stack,append_assoc]
  have newest : before.nextIndex < state.nextIndex := live.sound.numbers node _ live.place
  have staysOn : ∀ other ∈ state.stack, other ∈ after.stack := by
    intro _ mem
    rw [explored.stack]
    exact mem_append_right _ mem
  have lowStays : after.lowlink.get node = some low := by
    rw [explored.grown.lowlinks node live.root_numbered,live.lowlink]
  constructor
  case sound => exact { sound with }
  case grown =>
    have grown := live.grown.trans explored.grown
    constructor
    · exact grown.numbers
    · intro other numbered
      rw [lowlink_lower,if_neg,grown.lowlinks other numbered]
      intro same
      rw [← same] at numbered
      exact fresher numbered
  case place => exact explored.grown.numbers node _ live.place
  case stack => exact stacked
  case lowlink =>
    rw [lowlink_lower,if_pos rfl,lowStays]
    rfl
  case below => exact Nat.le_trans (Nat.min_le_left _ _) live.below
  case attained =>
    have current : ∃ goal ∈ after.stack, after.rank goal = low ∧
        Reaches links node goal := by
      obtain ⟨goal,inStack,ranked,path⟩ := live.attained
      exact ⟨goal,staysOn goal inStack,by rw [ranks goal inStack,ranked],path⟩
    by_cases smaller : lowNext < low
    · rw [Nat.min_eq_right (Nat.le_of_lt smaller)]
      cases explored.attained with
      | inl =>
        have below := live.below
        omega
      | inr attained =>
        obtain ⟨goal,inStack,ranked,path⟩ := attained
        exact ⟨goal,staysOn goal inStack,ranked,.head edge path⟩
    · rw [Nat.min_eq_left (Nat.not_lt.mp smaller)]
      exact current
  case bound =>
    intro source inFresh goal inStack leads
    have inState : goal ∈ state.stack := live.mem_stack inStack
    change min low lowNext ≤ after.rank goal
    rw [mem_append] at inFresh
    cases inFresh with
    | inl inAdded =>
      exact Nat.le_trans (Nat.min_le_right _ _) (explored.bound source inAdded goal inState leads)
    | inr older =>
      rw [ranks goal inState]
      exact Nat.le_trans (Nat.min_le_left _ _) (live.bound source older goal inStack leads)
  case explored =>
    intro other mem
    change after.Numbered other ∧ (other ∈ before.stack → min low lowNext ≤ after.rank other)
    rw [mem_append,mem_singleton] at mem
    cases mem with
    | inl past =>
      have settled := live.explored other past
      refine ⟨explored.grown.numbered settled.1,fun inStack => ?_⟩
      rw [explored.grown.rank settled.1]
      exact Nat.le_trans (Nat.min_le_left _ _) (settled.2 inStack)
    | inr same =>
      rw [same]
      exact ⟨explored.seen,fun inStack => Nat.le_trans (Nat.min_le_right _ _) (fits inStack)⟩

end

/-- How many of the nodes have no number yet. -/
def white (nodes : List α) (state : Tarjan α) : Nat :=
  nodes.countP fun node => (state.index.get node).isNone

theorem Extends.white_le {before after : Tarjan α} (grown : Extends before after) (nodes : List α) :
    after.white nodes ≤ before.white nodes := by
  apply List.countP_mono_left
  intro _ _ blank
  rw [Option.isNone_iff_eq_none] at blank ⊢
  rw [← not_numbered] at blank ⊢
  exact fun numbered => blank (grown.numbered numbered)

theorem white_enter_lt (mem : node ∈ nodes)
    (fresh : ¬ state.Numbered node) : (state.enter node).white nodes < state.white nodes := by
  have shrunk : (state.enter node).white nodes =
      (nodes.filter fun other => (state.index.get other).isNone).countP fun other =>
        ((state.enter node).index.get other).isNone := by
    unfold white
    rw [List.countP_filter]
    congr 1
    funext other
    rw [index_enter]
    split <;> simp
  unfold white at shrunk ⊢
  rw [shrunk,List.countP_eq_length_filter (p := fun other => (state.index.get other).isNone),
    List.countP_lt_length_iff]
  refine ⟨node,mem_filter.mpr ⟨mem,?_⟩,?_⟩
  · rw [not_numbered.mp fresh]
    rfl
  · rw [index_enter,if_pos rfl]
    rfl

def Visits (successors : α → List α) (nodes : List α) (fuel : Nat)
    (visit : α → Tarjan α → Option (Tarjan α)) : Prop :=
  ∀ gray state node, Sound successors nodes gray state → ¬ state.Numbered node → node ∈ nodes →
    (∀ root ∈ gray, Reaches successors root node) → state.white nodes ≤ fuel →
    ∃ after fresh low, visit node state = some after ∧ Sound successors nodes gray after ∧
      after.lowlink.get node = some low ∧ Explored successors state after node fresh low

section Following

variable {fuel : Nat} {visit : α → Tarjan α → Option (Tarjan α)} {before : Tarjan α}

theorem Underway.followed {next : α} {done fresh : List α} {low : Nat}
    (visits : Visits links nodes fuel visit) (inNodes : next ∈ nodes)
    (edge : next ∈ links node) (fresher : ¬ before.Numbered node)
    (reached : ∀ root ∈ gray, Reaches links root node)
    (live : Underway links nodes gray before state node done fresh low)
    (room : state.white nodes ≤ fuel) :
    ∃ after fresh low, Tarjan.follow visit node state next = some after ∧
      Underway links nodes gray before after node (done ++ [next]) fresh low ∧
      after.white nodes ≤ fuel := by
  unfold Tarjan.follow
  cases found : state.index.get next with
  | none =>
    have unnumbered : ¬ state.Numbered next := not_numbered.mpr found
    have arrives : ∀ root ∈ node :: gray, Reaches links root next := by
      intro root mem
      rw [mem_cons] at mem
      cases mem with
      | inl same =>
        rw [same]
        exact .single edge
      | inr inGray => exact (reached root inGray).tail edge
    obtain ⟨after,_,_,visited,sound,lowlink,explored⟩ :=
      visits _ state next live.sound unnumbered inNodes arrives room
    have absent : next ∉ before.stack := fun below =>
      unnumbered (live.sound.numbered_of_mem (live.mem_stack below))
    refine ⟨_,_,_,?_,live.visit fresher edge (fun below => absurd below absent) sound explored,?_⟩
    · dsimp only
      rw [visited]
      change some (after.lower node ((after.lowlink.get next).getD _)) = _
      rw [lowlink]
      rfl
    · exact Nat.le_trans (explored.grown.white_le nodes) room
  | some number =>
    have numbered : state.Numbered next := ⟨number,found⟩
    have ranked : state.rank next = number := rank_eq found
    dsimp only
    by_cases onStack : state.onStack.contains next = true
    · have inStack : next ∈ state.stack := by
        rw [← live.sound.flagged]
        exact (OrderedSet.contains_iff _ _).mp onStack
      rw [if_pos onStack]
      have explored : Explored links state state next [] number :=
        ⟨⟨fun _ _ found => found,fun _ _ => rfl⟩,rfl,numbered,nofun,
          .inr ⟨next,inStack,ranked,.refl⟩⟩
      exact ⟨_,_,_,rfl,live.visit fresher edge (fun _ => Nat.le_of_eq ranked.symm) live.sound
        explored,room⟩
    · rw [if_neg onStack]
      refine ⟨_,_,_,rfl,live.follow numbered fun inBefore => ?_,room⟩
      refine absurd ?_ onStack
      rw [OrderedSet.contains_iff,live.sound.flagged]
      exact live.mem_stack inBefore

/-- All the edges, one after the other. -/
theorem Underway.followed_all (visits : Visits links nodes fuel visit)
    (inside : ∀ next ∈ links node, next ∈ nodes) (fresher : ¬ before.Numbered node)
    (reached : ∀ root ∈ gray, Reaches links root node) (rest : List α) :
    ∀ {state : Tarjan α} {done fresh : List α} {low : Nat},
      (∀ next ∈ rest, next ∈ links node) →
      Underway links nodes gray before state node done fresh low → state.white nodes ≤ fuel →
      ∃ after fresh low, rest.foldlM (Tarjan.follow visit node) state = some after ∧
        Underway links nodes gray before after node (done ++ rest) fresh low := by
  induction rest with
  | nil =>
    intro state _ fresh low _ live _
    exact ⟨state,fresh,low,rfl,by rw [append_nil]; exact live⟩
  | cons next rest ih =>
    intro _ _ fresh low edges live room
    have edge : next ∈ links node := edges next mem_cons_self
    obtain ⟨_,fresh,low,stepped,through,left⟩ :=
      Underway.followed visits (inside next edge) edge fresher reached live room
    obtain ⟨after,fresh,low,ran,ended⟩ :=
      ih (fun other mem => edges other (mem_cons_of_mem _ mem)) through left
    refine ⟨after,fresh,low,?_,?_⟩
    · rw [List.foldlM_cons,stepped]
      exact ran
    · rw [append_assoc] at ended
      exact ended

end Following

/-! ### Closing a node -/

theorem popThrough_append {fresh below : List α} (apart : node ∉ fresh) :
    popThrough node (fresh ++ node :: below) = (fresh ++ [node],below) := by
  induction fresh with
  | nil =>
    exact if_pos rfl
  | cons top fresh ih =>
    rw [mem_cons,not_or] at apart
    rw [cons_append]
    unfold popThrough
    rw [if_neg fun same => apart.1 same.symm,ih apart.2]
    rfl

theorem mem_foldl_remove (items : List α) (set : OrderedSet α) (item : α) :
    item ∈ (items.foldl OrderedSet.remove set).elems ↔ item ∈ set.elems ∧ item ∉ items := by
  induction items generalizing set with
  | nil => simp
  | cons head tail ih =>
    rw [foldl_cons,ih,OrderedSet.mem_remove,mem_cons,not_or,and_assoc]

/-- A path out of a set of nodes leaves it over an edge. -/
theorem Reaches.leaves {inside : List α} {source goal : α}
    (path : Reaches links source goal) (start : source ∈ inside)
    (outside : goal ∉ inside) :
    ∃ last next, last ∈ inside ∧ next ∉ inside ∧ next ∈ links last ∧
      Reaches links source last ∧ Reaches links next goal := by
  induction path using Relation.ReflTransGen.head_induction_on with
  | refl => exact absurd start outside
  | @head source middle edge path ih =>
    by_cases within : middle ∈ inside
    · obtain ⟨last,next,lastIn,nextOut,leads,early,late⟩ := ih within
      exact ⟨last,next,lastIn,nextOut,leads,.head edge early,late⟩
    · exact ⟨source,middle,start,within,edge,.refl,path⟩

section Closing

variable {before : Tarjan α} {fresh : List α} {low : Nat} {done : List α} {goal : α}

section

variable (live : Underway links nodes gray before state node done fresh low)
include live

theorem Underway.older (mem : goal ∈ before.stack) : state.rank goal < before.nextIndex := by
  have order := live.sound.descending
  rw [live.stack,pairwise_append,pairwise_cons] at order
  rw [← rank_eq live.place]
  exact order.2.1.1 goal mem

theorem Underway.newer (mem : goal ∈ fresh ++ [node]) : before.nextIndex ≤ state.rank goal := by
  have order := live.sound.descending
  rw [live.stack,pairwise_append] at order
  rw [mem_append,mem_singleton] at mem
  cases mem with
  | inl inFresh =>
    rw [← rank_eq live.place]
    exact Nat.le_of_lt (order.2.2 goal inFresh node mem_cons_self)
  | inr same =>
    rw [same,rank_eq live.place]

theorem Underway.apart (mem : goal ∈ fresh ++ [node]) : goal ∉ before.stack := by
  intro below
  have less := live.older below
  have more := live.newer mem
  omega

theorem Underway.mem_stack_iff :
    goal ∈ state.stack ↔ goal ∈ fresh ++ [node] ∨ goal ∈ before.stack := by
  rw [live.stack,← mem_append,append_assoc]
  rfl

theorem Underway.root_not_fresh : node ∉ fresh := by
  have nodup := live.sound.nodup
  rw [live.stack,nodup_append] at nodup
  exact fun inFresh => nodup.2.2 node inFresh node mem_cons_self rfl

/-- No visited node is left in doubt: all but the closed one are still below it. -/
theorem Underway.upward_below (mem : goal ∈ before.stack) :
    ∃ anchor ∈ gray, state.rank anchor ≤ state.rank goal ∧ Reaches links goal anchor := by
  obtain ⟨anchor,inGray,order,path⟩ := live.sound.upward goal (live.mem_stack mem)
  rw [mem_cons] at inGray
  cases inGray with
  | inl same =>
    have less := live.older mem
    rw [same,rank_eq live.place] at order
    omega
  | inr inGray => exact ⟨anchor,inGray,order,path⟩

end

section

variable (live : Underway links nodes gray before state node (links node) fresh low)
include live

theorem Underway.edge_bound {source : α} (mem : source ∈ fresh ++ [node])
    (edge : goal ∈ links source) (inStack : goal ∈ before.stack) :
    low ≤ state.rank goal := by
  rw [mem_append,mem_singleton] at mem
  cases mem with
  | inl inFresh => exact live.bound source inFresh goal inStack edge
  | inr same =>
    rw [same] at edge
    exact (live.explored goal edge).2 inStack

theorem Underway.finished {source : α} (numbered : state.Numbered source) (notGray : source ∉ gray)
    {next : α} (edge : next ∈ links source) : state.Numbered next := by
  by_cases same : source = node
  · rw [same] at edge
    exact (live.explored next edge).1
  · apply live.sound.finished source numbered _ next edge
    rw [mem_cons,not_or]
    exact ⟨same,notGray⟩

variable (sound : Sound links nodes gray before)
include sound

theorem Underway.settled {source next : α}
    (mem : source ∈ fresh ++ [node]) (edge : next ∈ links source) :
    state.Numbered next := by
  have numbered := live.sound.numbered_of_mem (live.mem_stack_iff.mpr (.inl mem))
  exact live.finished numbered (fun inGray => live.apart mem (sound.grayOnStack source inGray)) edge

section

variable (root : low = before.nextIndex)
include root

variable {source : α}

/-- When no edge leads to an older node, a path out of the new nodes enters a component. -/
theorem Underway.escape (mem : source ∈ fresh ++ [node])
    (outside : goal ∉ fresh ++ [node]) (path : Reaches links source goal) :
    ∃ scc ∈ state.sccs, ∃ entry ∈ scc, Reaches links source entry ∧
      Reaches links entry goal := by
  obtain ⟨_,next,lastIn,nextOut,edge,early,late⟩ := path.leaves mem outside
  have numbered := live.settled sound lastIn edge
  have notBelow : next ∉ before.stack := by
    intro inStack
    have bounded := live.edge_bound lastIn edge inStack
    have less := live.older inStack
    omega
  have placed := (live.sound.placed next).mp numbered
  rw [live.mem_stack_iff] at placed
  obtain ⟨scc,inSccs,inside⟩ := placed.resolve_left fun either =>
    either.elim nextOut notBelow
  exact ⟨scc,inSccs,next,inside,early.tail edge,late⟩

/-- Then every new node gets back to the visited one. -/
theorem Underway.returns (mem : source ∈ fresh ++ [node]) : Reaches links source node := by
  have inStack : source ∈ state.stack := live.mem_stack_iff.mpr (.inl mem)
  obtain ⟨anchor,inGray,order,path⟩ := live.sound.upward source inStack
  rw [mem_cons] at inGray
  cases inGray with
  | inl same =>
    rw [same] at path
    exact path
  | inr inGray =>
    have below : anchor ∈ before.stack := sound.grayOnStack anchor inGray
    have anchored : anchor ∈ state.stack := live.mem_stack below
    have outside : anchor ∉ fresh ++ [node] := fun inside => live.apart inside below
    obtain ⟨scc,inSccs,entry,inside,early,late⟩ :=
      live.escape sound root mem outside path
    have back : Reaches links anchor entry :=
      (live.sound.downward anchor anchored source inStack order).trans early
    have swallowed := (live.sound.maximal scc inSccs entry inside anchor).mpr ⟨late,back⟩
    exact absurd swallowed (live.sound.apart anchor anchored scc inSccs)

/-- The new nodes are one whole component. -/
theorem Underway.complete (mem : source ∈ fresh ++ [node]) (other : α) :
    other ∈ fresh ++ [node] ↔ Reaches links source other ∧ Reaches links other source := by
  have leads : ∀ {goal}, goal ∈ fresh ++ [node] → Reaches links node goal := by
    intro goal inside
    have rooted : node ∈ state.stack := live.mem_stack_iff.mpr (.inl (by simp))
    apply live.sound.downward node rooted goal (live.mem_stack_iff.mpr (.inl inside))
    rw [rank_eq live.place]
    exact live.newer inside
  constructor
  · intro inside
    exact ⟨(live.returns sound root mem).trans (leads inside),
      (live.returns sound root inside).trans (leads mem)⟩
  · rintro ⟨forth,back⟩
    by_contra outside
    obtain ⟨scc,inSccs,entry,inside,early,late⟩ :=
      live.escape sound root mem outside forth
    have swallowed := (live.sound.maximal scc inSccs entry inside source).mpr
      ⟨late.trans back,early⟩
    exact live.sound.apart source (live.mem_stack_iff.mpr (.inl mem)) scc inSccs
      swallowed

end

/-- A low link below the node's own number: the new nodes stay on the stack. -/
theorem Underway.close_open (lower : low < before.nextIndex) :
    Sound links nodes gray state ∧ Explored links before state node (fresh ++ [node]) low := by
  have below : ∃ goal ∈ before.stack, state.rank goal = low ∧ Reaches links node goal := by
    obtain ⟨goal,inStack,ranked,path⟩ := live.attained
    refine ⟨goal,(live.mem_stack_iff.mp inStack).resolve_left fun inside => ?_,ranked,path⟩
    have more := live.newer inside
    omega
  constructor
  · refine { live.sound with grayOnStack := ?_, upward := ?_, finished := ?_ }
    · intro anchor inGray
      exact live.mem_stack (sound.grayOnStack anchor inGray)
    · intro goal inStack
      obtain ⟨anchor,inGray,order,path⟩ := live.sound.upward goal inStack
      rw [mem_cons] at inGray
      cases inGray with
      | inl same =>
        -- The way back to the closed node goes on to an older one.
        obtain ⟨_,inBefore,_,onward⟩ := below
        obtain ⟨root,rootGray,less,further⟩ := live.upward_below inBefore
        rw [same,rank_eq live.place] at order
        rw [same] at path
        exact ⟨root,rootGray,by omega,(path.trans onward).trans further⟩
      | inr inGray => exact ⟨anchor,inGray,order,path⟩
    · intro _ numbered notGray _ edge
      exact live.finished numbered notGray edge
  · constructor
    case grown => exact live.grown
    case stack =>
      rw [live.stack,append_assoc]
      rfl
    case seen => exact live.root_numbered
    case bound =>
      intro _ mem _ inStack edge
      exact live.edge_bound mem edge inStack
    case attained => exact .inr below

/-- A low link that is the node's own number: the new nodes become a component. -/
theorem Underway.close_root (root : low = before.nextIndex) (popped : OrderedSet α)
    (off : ∀ other, other ∈ popped.elems ↔ other ∈ before.stack) :
    Sound links nodes gray { state with
      onStack := popped
      stack := before.stack
      sccs := state.sccs ++ [(fresh ++ [node]).insertionSort (· ≤ ·)] } := by
  have members : ∀ other, other ∈ (fresh ++ [node]).insertionSort (· ≤ ·) ↔
      other ∈ fresh ++ [node] := fun other => mem_insertionSort _
  have nodup : (fresh ++ [node]).Nodup := by
    have whole := live.sound.nodup
    rw [live.stack,← singleton_append,← append_assoc] at whole
    exact (nodup_append.mp whole).1
  constructor
  case known => exact live.sound.known
  case numbers => exact live.sound.numbers
  case flagged => exact off
  case descending =>
    have order := live.sound.descending
    rw [live.stack,pairwise_append,pairwise_cons] at order
    exact order.2.1.2
  case placed =>
    intro other
    refine (live.sound.placed other).trans ?_
    rw [live.mem_stack_iff]
    constructor
    · rintro ((inside | below) | ⟨scc,inSccs,inside⟩)
      · exact .inr ⟨_,mem_append_right _ mem_cons_self,(members other).mpr inside⟩
      · exact .inl below
      · exact .inr ⟨scc,mem_append_left _ inSccs,inside⟩
    · rintro (below | ⟨scc,inSccs,inside⟩)
      · exact .inl (.inr below)
      · rw [mem_append,mem_singleton] at inSccs
        cases inSccs with
        | inl past => exact .inr ⟨scc,past,inside⟩
        | inr last =>
          rw [last,members] at inside
          exact .inl (.inl inside)
  case apart =>
    intro other below scc inSccs inside
    rw [mem_append,mem_singleton] at inSccs
    cases inSccs with
    | inl past =>
      exact live.sound.apart other (live.mem_stack below) scc past inside
    | inr last =>
      rw [last,members] at inside
      exact live.apart inside below
  case disjoint =>
    rw [pairwise_append]
    refine ⟨live.sound.disjoint,pairwise_singleton _ _,?_⟩
    intro scc past _ isLast other inside also
    rw [mem_singleton] at isLast
    rw [isLast,members] at also
    exact live.sound.apart other (live.mem_stack_iff.mpr (.inl also)) scc past
      inside
  case sorted =>
    refine forall_mem_append.mpr ⟨live.sound.sorted,forall_mem_singleton.mpr ?_⟩
    have order := (fresh ++ [node]).pairwise_insertionSort (· ≤ ·)
    have unique : ((fresh ++ [node]).insertionSort (· ≤ ·)).Nodup :=
      ((fresh ++ [node]).perm_insertionSort (· ≤ ·)).nodup_iff.mpr nodup
    exact order.imp₂ (fun _ _ small different => lt_of_le_of_ne small different) unique
  case grayOnStack => exact sound.grayOnStack
  case downward =>
    intro older olderIn newer newerIn order
    exact live.sound.downward older (live.mem_stack olderIn) newer
      (live.mem_stack newerIn) order
  case upward => exact fun goal mem => live.upward_below mem
  case finished =>
    exact fun source numbered notGray next edge => live.finished numbered notGray edge
  case maximal =>
    intro scc inSccs source inside other
    rw [mem_append,mem_singleton] at inSccs
    cases inSccs with
    | inl past => exact live.sound.maximal scc past source inside other
    | inr last =>
      rw [last,members] at inside ⊢
      exact live.complete sound root inside other

theorem Underway.close : Sound links nodes gray (state.close node) ∧ ∃ fresh low,
    (state.close node).lowlink.get node = some low ∧
      Explored links before (state.close node) node fresh low := by
  unfold Tarjan.close
  rw [live.place,live.lowlink]
  dsimp only
  by_cases root : low = before.nextIndex
  · rw [if_pos root,live.stack,popThrough_append live.root_not_fresh]
    have off : ∀ other, other ∈ ((fresh ++ [node]).foldl OrderedSet.remove state.onStack).elems ↔
        other ∈ before.stack := by
      intro _
      rw [mem_foldl_remove,live.sound.flagged,live.mem_stack_iff]
      constructor
      · rintro ⟨either,outside⟩
        exact either.resolve_left outside
      · intro below
        exact ⟨.inr below,fun inside => live.apart inside below⟩
    refine ⟨live.close_root sound root _ off,[],low,live.lowlink,?_⟩
    constructor
    case grown => exact ⟨live.grown.numbers,live.grown.lowlinks⟩
    case stack => rfl
    case seen => exact live.root_numbered
    case bound => exact nofun
    case attained => exact .inl ⟨rfl,Nat.le_of_eq root.symm⟩
  · rw [if_neg root]
    have closed := live.close_open sound (Nat.lt_of_le_of_ne live.below root)
    exact ⟨closed.1,_,_,live.lowlink,closed.2⟩

end

end Closing

/-! ### Whole runs -/

theorem Sound.underway (sound : Sound links nodes gray state) (mem : node ∈ nodes)
    (fresh : ¬ state.Numbered node) (reached : ∀ root ∈ gray, Reaches links root node) :
    Underway links nodes gray state (state.enter node) node [] [] state.nextIndex where
  sound := sound.enter mem fresh reached
  grown := extends_enter fresh
  place := by rw [index_enter,if_pos rfl]
  stack := rfl
  lowlink := by
    change (state.lowlink.insert node state.nextIndex).get node = _
    rw [OrderedMap.get_insert,if_pos rfl]
  below := Nat.le_refl _
  attained := ⟨node,mem_cons_self,rank_eq (by rw [index_enter,if_pos rfl]),.refl⟩
  bound := nofun
  explored := nofun

theorem visits_strongconnect (inside : ∀ node, ∀ next ∈ links node, next ∈ nodes)
    (fuel : Nat) : Visits links nodes fuel (strongconnect links fuel) := by
  induction fuel with
  | zero =>
    intro _ _ _ _ fresh mem _ _
    have less := white_enter_lt mem fresh
    omega
  | succ fuel ih =>
    intro _ _ node sound fresh mem reached _
    have less := white_enter_lt mem fresh
    obtain ⟨after,_,_,ran,live⟩ := Underway.followed_all ih (inside node) fresh
      reached (links node) (fun next edge => edge) (sound.underway mem fresh reached) (by omega)
    obtain ⟨closed,freshLeft,lowLeft,explored⟩ := Underway.close live sound
    refine ⟨after.close node,freshLeft,lowLeft,?_,closed,explored⟩
    unfold strongconnect
    rw [ran]
    rfl

/-- With nothing being visited the stack is empty. -/
theorem Sound.stack_nil (sound : Sound links nodes [] state) : state.stack = [] := by
  cases held : state.stack with
  | nil => rfl
  | cons top =>
    have inStack : top ∈ state.stack := by
      rw [held]
      exact mem_cons_self
    obtain ⟨_,mem,_⟩ := sound.upward top inStack
    cases mem

theorem run_sound (inside : ∀ node, ∀ next ∈ links node, next ∈ nodes) :
    ∃ state, run links nodes.length nodes = some state ∧ Sound links nodes [] state ∧
      ∀ node ∈ nodes, state.Numbered node := by
  have all : ∀ (rest : List α) (state : Tarjan α), (∀ node ∈ rest, node ∈ nodes) →
      Sound links nodes [] state → ∃ after,
        rest.foldlM (fun state node => if (state.index.get node).isSome then some state
          else strongconnect links nodes.length node state) state = some after ∧
        Sound links nodes [] after ∧ Extends state after ∧ ∀ node ∈ rest, after.Numbered node := by
    intro rest
    induction rest with
    | nil =>
      intro state _ sound
      exact ⟨state,rfl,sound,⟨fun _ _ found => found,fun _ _ => rfl⟩,nofun⟩
    | cons node rest ih =>
      intro state members sound
      have later : ∀ other ∈ rest, other ∈ nodes :=
        fun other mem => members other (mem_cons_of_mem _ mem)
      by_cases numbered : state.Numbered node
      · obtain ⟨after,ran,ended,grown,covered⟩ := ih state later sound
        refine ⟨after,?_,ended,grown,?_⟩
        · rw [List.foldlM_cons,if_pos (by rw [get_rank numbered]; rfl)]
          exact ran
        · exact forall_mem_cons.mpr ⟨grown.numbered numbered,covered⟩
      · obtain ⟨middle,_,_,visited,between,-,explored⟩ :=
          visits_strongconnect inside nodes.length [] state node sound numbered
            (members node mem_cons_self) nofun
            List.countP_le_length
        obtain ⟨after,ran,ended,grown,covered⟩ := ih middle later between
        refine ⟨after,?_,ended,explored.grown.trans grown,?_⟩
        · rw [List.foldlM_cons,if_neg (by rw [not_numbered.mp numbered]; exact Bool.noConfusion),
            visited]
          exact ran
        · exact forall_mem_cons.mpr ⟨grown.numbered explored.seen,covered⟩
  obtain ⟨after,ran,sound,_,covered⟩ := all nodes new (fun _ mem => mem) sound_new
  exact ⟨after,ran,sound,covered⟩

/-- The components of a finished run are the classes of mutual reachability. -/
structure Exact (successors : α → List α) (nodes : List α) (found : List (List α)) : Prop where
  covers : ∀ node, node ∈ nodes ↔ ∃ component ∈ found, node ∈ component
  disjoint : found.Pairwise fun left right => ∀ node ∈ left, node ∉ right
  sorted : ∀ component ∈ found, component.Pairwise (· < ·)
  maximal : ∀ component ∈ found, ∀ node ∈ component, ∀ other,
    other ∈ component ↔ Reaches successors node other ∧ Reaches successors other node

theorem components_exact (inside : ∀ node, ∀ next ∈ links node, next ∈ nodes) :
    ∃ state, run links nodes.length nodes = some state ∧
      Exact links nodes state.components := by
  obtain ⟨state,ran,sound,covered⟩ := run_sound inside
  have sorted : state.components.Perm state.sccs := perm_insertionSort _ _
  have empty := sound.stack_nil
  refine ⟨state,ran,?_,?_,?_,?_⟩
  · intro node
    constructor
    · intro mem
      have placed := (sound.placed node).mp (covered node mem)
      rw [empty] at placed
      obtain ⟨scc,inSccs,within⟩ := placed.resolve_left not_mem_nil
      exact ⟨scc,sorted.mem_iff.mpr inSccs,within⟩
    · rintro ⟨scc,mem,within⟩
      exact sound.known node ((sound.placed node).mpr
        (.inr ⟨scc,sorted.mem_iff.mp mem,within⟩))
  · have mutualApart : ∀ {left right : List α}, (∀ node ∈ left, node ∉ right) →
        ∀ node ∈ right, node ∉ left := fun apart node inRight inLeft => apart node inLeft inRight
    exact (sorted.pairwise_iff mutualApart).mpr sound.disjoint
  · intro scc mem
    exact sound.sorted scc (sorted.mem_iff.mp mem)
  · intro scc mem
    exact sound.maximal scc (sorted.mem_iff.mp mem)

/-- Every node is listed once. -/
theorem Exact.flatten_perm (exact : Exact links nodes found)
    (nodup : nodes.Nodup) : found.flatten.Perm nodes := by
  rw [perm_ext_iff_of_nodup _ nodup]
  · intro _
    rw [mem_flatten,exact.covers]
  · rw [nodup_flatten]
    refine ⟨fun scc mem => (exact.sorted scc mem).imp ne_of_lt,?_⟩
    exact exact.disjoint.imp fun apart node inLeft inRight => apart node inLeft inRight

theorem Exact.together_iff (exact : Exact links nodes found)
    {first second : α} (known : first ∈ nodes) :
    (∃ scc ∈ found, first ∈ scc ∧ second ∈ scc) ↔
      Reaches links first second ∧ Reaches links second first := by
  constructor
  · rintro ⟨scc,mem,firstIn,secondIn⟩
    exact (exact.maximal scc mem first firstIn second).mp secondIn
  · intro both
    obtain ⟨scc,mem,firstIn⟩ := (exact.covers first).mp known
    exact ⟨scc,mem,firstIn,(exact.maximal scc mem first firstIn second).mpr both⟩

end Tarjan

end Astrs.Base
