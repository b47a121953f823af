/-
Routes between two daemons joined by a link.

Each daemon numbers the routes it opens from 1, and a teardown names its route by number alone.
The link's stream for a route is open while the opener's record of it is not rejected, and is
left out.
-/

import Astrs.Base.Ordered
import Astrs.Daemon.Generations

namespace Astrs.Daemon

open Astrs.Base
open Function (update update_of_ne update_self)

inductive RemoteRouteState
  | pending
  | established
  | rejected
  | draining
  deriving DecidableEq

structure RemoteRoute (Port : Type) where
  consumer : Port
  state : RemoteRouteState
  deriving DecidableEq

inductive RouteAcceptance
  | accepted
  | rejected (transient : Bool)

/-- The opener of a route that is torn down is not sent; it says here which route is meant. -/
inductive PeerEvent (Port : Type)
  | routeSetup (number : Nat) (consumer : Port)
  | routeAccept (number : Nat) (acceptance : RouteAcceptance)
  | output (number : Nat)
  | outputClosed (number : Nat)
  | routeTeardown (opener : Bool) (number : Nat)

inductive PeerReaction (Port : Type)
  | deliver (consumer : Port)
  | inputClosed (consumer : Port)
  deriving DecidableEq

variable {Port : Type}

theorem one_le_u64Max : 1 ≤ u64Max := by decide

structure PeerRouteTable (Port : Type) where
  outbound : OrderedMap Nat (RemoteRoute Port) := .empty
  inbound : OrderedMap Nat (RemoteRoute Port) := .empty
  nextHandle : Nat := 1
  bounded : nextHandle ≤ u64Max := by exact one_le_u64Max

namespace PeerRouteTable

def setupRoute (table : PeerRouteTable Port) (consumer : Port) : PeerRouteTable Port :=
  { table with
    outbound := table.outbound.insert table.nextHandle ⟨consumer,.pending⟩
    nextHandle := min (table.nextHandle + 1) u64Max
    bounded := Nat.min_le_right _ _ }

/-- Sends an event about a route that is established. -/
def tell (table : PeerRouteTable Port) (number : Nat) (event : PeerEvent Port) :
    List (PeerEvent Port) :=
  if (table.outbound.get number).any fun route => route.state = .established then [event] else []

/-- Settles a pending route; a transient rejection forgets it. -/
def onAccept (table : PeerRouteTable Port) (number : Nat) (acceptance : RouteAcceptance) :
    PeerRouteTable Port :=
  match table.outbound.get number,acceptance with
  | some ⟨consumer,.pending⟩,.accepted =>
    { table with outbound := table.outbound.insert number ⟨consumer,.established⟩ }
  | some ⟨consumer,.pending⟩,.rejected false =>
    { table with outbound := table.outbound.insert number ⟨consumer,.rejected⟩ }
  | some ⟨_,.pending⟩,.rejected true => { table with outbound := table.outbound.remove number }
  | _,_ => table

def admitRoute (table : PeerRouteTable Port) (number : Nat) (consumer : Port) :
    RouteAcceptance → PeerRouteTable Port
  | .accepted =>
    { table with inbound := table.inbound.insert number ⟨consumer,.established⟩ }
  | .rejected _ => table

def onOutput (table : PeerRouteTable Port) (number : Nat) : List (PeerReaction Port) :=
  match table.inbound.get number with
  | some ⟨consumer,.established⟩ => [.deliver consumer]
  | _ => []

def drain (table : PeerRouteTable Port) (number : Nat) :
    Option (RemoteRoute Port) × PeerRouteTable Port :=
  (table.inbound.get number,
    { table with
      inbound := table.inbound.adjust number fun route => { route with state := .draining } })

def close (table : PeerRouteTable Port) (number : Nat) :
    Option (RemoteRoute Port) × PeerRouteTable Port :=
  match table.outbound.get number with
  | some route => (some route,{ table with outbound := table.outbound.remove number })
  | none => (table.inbound.get number,{ table with inbound := table.inbound.remove number })

def closed (route : Option (RemoteRoute Port)) : List (PeerReaction Port) :=
  (route.map fun route => .inputClosed route.consumer).toList

/-- The table after a frame, what the consumers are told, and the answer.  A setup is answered at
once, with the acceptance given. -/
def handleFrame (table : PeerRouteTable Port) (acceptance : RouteAcceptance) : PeerEvent Port →
    PeerRouteTable Port × List (PeerReaction Port) × List (PeerEvent Port)
  | .routeSetup number consumer =>
    (table.admitRoute number consumer acceptance,[],[.routeAccept number acceptance])
  | .routeAccept number answer => (table.onAccept number answer,[],[])
  | .output number => (table,table.onOutput number,[])
  | .outputClosed number => ((table.drain number).2,closed (table.drain number).1,[])
  | .routeTeardown _ number => ((table.close number).2,closed (table.close number).1,[])

/-- The record of a route that was opened here or by the peer. -/
def route (table : PeerRouteTable Port) (own : Bool) (number : Nat) : Option (RemoteRoute Port) :=
  if own then table.outbound.get number else table.inbound.get number

variable {table : PeerRouteTable Port} {own : Bool} {number : Nat}

section

variable (meant : (table.outbound.get number).isSome = own)
include meant

theorem close_fst : (table.close number).1 = table.route own number := by
  subst meant
  unfold close
  cases found : table.outbound.get number with
  | none => rfl
  | some held => exact found.symm

/-- Closing takes a route opened here, if there is one, and else one opened by the peer. -/
theorem route_close (named : Bool) (index : Nat) : (table.close number).2.route named index =
    if named = own ∧ index = number then none else table.route named index := by
  subst meant
  unfold close
  cases found : table.outbound.get number with
  | none => cases named <;> simp [route,eq_comm]
  | some held => cases named <;> simp [route,eq_comm]

end

/-- Numbers that come into use were not given out before, as long as the counter has room. -/
structure Follows (before after : PeerRouteTable Port) : Prop where
  grows : before.nextHandle ≤ after.nextHandle
  fresh : ∀ number < u64Max, (after.outbound.get number).isSome →
    (before.outbound.get number).isSome ∨
      before.nextHandle ≤ number ∧ number < after.nextHandle

theorem Follows.of_held {after : PeerRouteTable Port} (same : after.nextHandle = table.nextHandle)
    (held : ∀ number, (after.outbound.get number).isSome → (table.outbound.get number).isSome) :
    Follows table after :=
  ⟨Nat.le_of_eq same.symm,fun number _ there => .inl (held number there)⟩

theorem follows_setupRoute (consumer : Port) : Follows table (table.setupRoute consumer) := by
  refine ⟨Nat.le_min.mpr ⟨Nat.le_succ _,table.bounded⟩,fun number room there => ?_⟩
  change ((table.outbound.insert table.nextHandle _).get number).isSome at there
  rw [OrderedMap.get_insert] at there
  split at there
  case isTrue same => exact .inr ⟨Nat.le_of_eq same,Nat.lt_min.mpr ⟨by omega,room⟩⟩
  case isFalse => exact .inl there

theorem held_of_remove {index : Nat} (there : ((table.outbound.remove number).get index).isSome) :
    (table.outbound.get index).isSome := by
  rw [OrderedMap.get_remove] at there
  split at there
  case isTrue => cases there
  case isFalse => exact there

theorem follows_close : Follows table (table.close number).2 := by
  unfold close
  cases table.outbound.get number with
  | none => exact .of_held rfl fun _ => id
  | some =>
    exact .of_held rfl fun _ => held_of_remove

theorem follows_handleFrame (acceptance : RouteAcceptance) (event : PeerEvent Port) :
    Follows table (table.handleFrame acceptance event).1 := by
  cases event with
  | routeTeardown => exact follows_close
  | routeSetup => cases acceptance <;> exact .of_held rfl fun _ => id
  | output | outputClosed => exact .of_held rfl fun _ => id
  | routeAccept number answer =>
    change Follows table (table.onAccept number answer)
    have settled : (table.outbound.get number).isSome → ∀ state : RemoteRoute Port, ∀ index,
        ((table.outbound.insert number state).get index).isSome →
          (table.outbound.get index).isSome := by
      intro known state index there
      by_cases same : number = index
      · rwa [← same]
      · simpa [same] using there
    unfold onAccept
    split
    case h_1 found => exact .of_held rfl (settled (found ▸ rfl) _)
    case h_2 found => exact .of_held rfl (settled (found ▸ rfl) _)
    case h_3 => exact .of_held rfl fun _ => held_of_remove
    case h_4 => exact .of_held rfl fun _ => id

end PeerRouteTable

open PeerRouteTable

/-- The daemons' tables, what they told their consumers, and the frames on their way to each. -/
structure PeerPair (Port : Type) where
  tables : Bool → PeerRouteTable Port := fun _ => {}
  reactions : Bool → List (PeerReaction Port) := fun _ => []
  wires : Bool → List (PeerEvent Port) := fun _ => []

inductive RouteStep (Port : Type)
  | setupRoute (side : Bool) (consumer : Port)
  | forward (side : Bool) (number : Nat)
  | closeOutput (side : Bool) (number : Nat)
  | teardownRoute (side opener : Bool) (number : Nat)
  | deliver (side : Bool) (acceptance : RouteAcceptance)

namespace PeerPair

def act (pair : PeerPair Port) (side : Bool)
    (done : PeerRouteTable Port × List (PeerReaction Port) × List (PeerEvent Port)) :
    PeerPair Port where
  tables := update pair.tables side done.1
  reactions := update pair.reactions side (pair.reactions side ++ done.2.1)
  wires := update pair.wires (!side) (pair.wires (!side) ++ done.2.2)

def perform (pair : PeerPair Port) : RouteStep Port → PeerPair Port
  | .setupRoute side consumer =>
    let table := pair.tables side
    pair.act side (table.setupRoute consumer,[],[.routeSetup table.nextHandle consumer])
  | .forward side number =>
    pair.act side (pair.tables side,[],(pair.tables side).tell number (.output number))
  | .closeOutput side number =>
    pair.act side (pair.tables side,[],(pair.tables side).tell number (.outputClosed number))
  | .teardownRoute side opener number =>
    pair.act side (((pair.tables side).close number).2,[],[.routeTeardown opener number])
  | .deliver side acceptance =>
    match pair.wires side with
    | [] => pair
    | event :: rest =>
      { pair with wires := update pair.wires side rest }.act side
        ((pair.tables side).handleFrame acceptance event)

def route (pair : PeerPair Port) (side opener : Bool) (number : Nat) : Option (RemoteRoute Port) :=
  (pair.tables side).route (opener == side) number

/-- A route's consumer is a node of the daemon that did not open it. -/
def host (opener : Bool) : Bool := !opener

/-- One daemon loses one route, every other route stays as it is, at both, and no input is closed
but, at the consumer's own daemon, the one that the route feeds. -/
structure Ends (pair next : PeerPair Port) (side opener : Bool) (number : Nat) : Prop where
  routes : ∀ other named index, next.route other named index =
    if other = side ∧ named = opener ∧ index = number then none else pair.route other named index
  inputs : next.reactions = update pair.reactions side (pair.reactions side ++
    if side = host opener then closed (pair.route side opener number) else [])

variable {pair next : PeerPair Port} {side opener : Bool} {number : Nat}

theorem route_own (pair : PeerPair Port) (side : Bool) (number : Nat) :
    pair.route side side number = (pair.tables side).outbound.get number :=
  if_pos (beq_self_eq_true side)

theorem route_of_close (meant : ((pair.tables side).outbound.get number).isSome = (opener == side))
    (closes : next.tables = update pair.tables side ((pair.tables side).close number).2)
    (other named : Bool) (index : Nat) : next.route other named index =
      if other = side ∧ named = opener ∧ index = number then none
      else pair.route other named index := by
  unfold route
  rw [closes]
  by_cases here : other = side
  · subst here
    rw [update_self,route_close meant]
    cases opener <;> cases other <;> cases named <;> simp
  · rw [update_of_ne here,if_neg fun same => here same.1]

theorem perform_deliver {event : PeerEvent Port} {rest : List (PeerEvent Port)}
    {acceptance : RouteAcceptance} (wired : pair.wires side = event :: rest) :
    pair.perform (.deliver side acceptance) =
      { pair with wires := update pair.wires side rest }.act side
        ((pair.tables side).handleFrame acceptance event) := by
  rw [perform,wired]

theorem follows_perform (step : RouteStep Port) (other : Bool) :
    Follows (pair.tables other) ((pair.perform step).tables other) := by
  have acted : ∀ (earlier : PeerPair Port) side done, earlier.tables = pair.tables →
      Follows (pair.tables side) done.1 →
        Follows (pair.tables other) ((earlier.act side done).tables other) := by
    intro earlier side done same follows
    change Follows _ (update earlier.tables side done.1 other)
    rw [same]
    by_cases here : other = side
    · subst here
      rwa [update_self]
    · rw [update_of_ne here]
      exact .of_held rfl fun _ => id
  cases step with
  | setupRoute side consumer => exact acted pair side _ rfl (follows_setupRoute consumer)
  | forward side | closeOutput side => exact acted pair side _ rfl (.of_held rfl fun _ => id)
  | teardownRoute side => exact acted pair side _ rfl follows_close
  | deliver side acceptance =>
    cases wired : pair.wires side with
    | nil =>
      rw [show pair.perform (.deliver side acceptance) = pair by rw [perform,wired]]
      exact .of_held rfl fun _ => id
    | cons event rest =>
      rw [perform_deliver wired]
      exact acted { pair with wires := update pair.wires side rest } side _ rfl
        (follows_handleFrame acceptance event)

theorem follows_run (steps : List (RouteStep Port)) (other : Bool) :
    Follows (pair.tables other) ((steps.foldl perform pair).tables other) := by
  induction steps generalizing pair with
  | nil => exact .of_held rfl fun _ => id
  | cons step rest ih =>
    have first := @follows_perform _ pair step other
    have later := @ih (pair.perform step)
    refine ⟨first.grows.trans later.grows,fun number room there => ?_⟩
    rcases later.fresh number room there with held | ⟨past,given⟩
    · rcases first.fresh number room held with held | ⟨past,given⟩
      · exact .inl held
      · exact .inr ⟨past,Nat.lt_of_lt_of_le given later.grows⟩
    · exact .inr ⟨first.grows.trans past,given⟩

def run (steps : List (RouteStep Port)) : PeerPair Port := steps.foldl perform {}

theorem begin_ends_iff {record : RemoteRoute Port}
    (held : pair.route side opener number = some record) :
    pair.Ends (pair.perform (.teardownRoute side opener number)) side opener number ↔
      side = opener := by
  constructor
  · intro ends
    by_contra differs
    -- The consumer's daemon closes no input when it begins a teardown.
    have hosts : side = host opener := by cases side <;> cases opener <;> trivial
    have told := congrFun ends.inputs side
    change update pair.reactions side (pair.reactions side ++ []) side = _ at told
    rw [update_self,update_self,if_pos hosts,held] at told
    cases List.append_cancel_left told
  · rintro rfl
    have meant : ((pair.tables side).outbound.get number).isSome = (side == side) := by
      rw [beq_self_eq_true,← route_own,held]
      rfl
    refine ⟨route_of_close meant rfl,?_⟩
    rw [if_neg (by cases side <;> decide)]
    rfl

theorem handle_ends_iff {rest : List (PeerEvent Port)} {acceptance : RouteAcceptance}
    (arrived : pair.wires (host opener) = .routeTeardown opener number :: rest) :
    pair.Ends (pair.perform (.deliver (host opener) acceptance)) (host opener) opener number ↔
      pair.route (host opener) (host opener) number = none := by
  rw [perform_deliver arrived]
  constructor
  · intro ends
    by_contra taken
    -- The route of the daemon's own is found first, and lost in its place.
    have meant : ((pair.tables (host opener)).outbound.get number).isSome =
        (host opener == host opener) := by
      rw [beq_self_eq_true,← route_own]
      exact Option.isSome_iff_ne_none.mpr taken
    have kept := (ends.routes (host opener) (host opener) number).symm.trans
      (route_of_close meant rfl (host opener) (host opener) number)
    rw [if_neg (by cases opener <;> simp [host]),if_pos ⟨rfl,rfl,rfl⟩] at kept
    exact taken kept
  · intro clear
    have meant : ((pair.tables (host opener)).outbound.get number).isSome =
        (opener == host opener) := by
      rw [← route_own,clear]
      cases opener <;> rfl
    refine ⟨route_of_close meant rfl,?_⟩
    rw [if_pos rfl]
    change update pair.reactions (host opener)
      (pair.reactions (host opener) ++ closed ((pair.tables (host opener)).close number).1) = _
    rw [close_fst meant]
    rfl

/-- The number of a route that its opener tore down is not given out again. -/
theorem stays_torn (earlier later : List (RouteStep Port)) {record : RemoteRoute Port}
    (room : number < u64Max) (held : (run earlier).route side side number = some record) :
    (later.foldl perform ((run earlier).perform (.teardownRoute side side number))).route
      side side number = none := by
  have ended := (((begin_ends_iff held).mpr rfl).routes side side number).trans
    (if_pos ⟨rfl,rfl,rfl⟩)
  rw [route_own] at held ended ⊢
  have opened : number < ((run earlier).tables side).nextHandle := by
    rcases (@follows_run _ {} earlier side).fresh number room
      (Option.isSome_iff_exists.mpr ⟨record,held⟩) with never | ⟨_,given⟩
    · cases never
    · exact given
  rw [← Option.not_isSome_iff_eq_none]
  intro again
  rcases (follows_run later side).fresh number room again with there | ⟨past,_⟩
  · rw [ended] at there
    cases there
  · have same := (@follows_perform _ (run earlier) (.teardownRoute side side number) side).grows
    omega

/-- A teardown of a route ends it at both daemons, closes the input it feeds and touches nothing
else exactly if the route's opener began it and the other daemon, when it handles it, has no route
of its own with that number. -/
theorem teardown_ends_one (earlier later : List (RouteStep Port)) (acceptance : RouteAcceptance)
    {record : RemoteRoute Port} {rest : List (PeerEvent Port)} (room : number < u64Max)
    (held : (run earlier).route side opener number = some record)
    (arrived : ((run (earlier ++ [.teardownRoute side opener number] ++ later)).wires (!side)) =
      .routeTeardown opener number :: rest) :
    let begun := run earlier
    let handling := run (earlier ++ [.teardownRoute side opener number] ++ later)
    let final := handling.perform (.deliver (!side) acceptance)
    (begun.Ends (begun.perform (.teardownRoute side opener number)) side opener number ∧
      handling.Ends final (!side) opener number ∧ ∀ other, final.route other opener number = none) ↔
    side = opener ∧ handling.route (!side) (!opener) number = none := by
  intro begun handling final
  have torn : handling =
      later.foldl perform (begun.perform (.teardownRoute side opener number)) := by
    simp only [handling,begun,run,List.foldl_append,List.foldl_cons,List.foldl_nil]
  rw [begin_ends_iff held]
  constructor
  · rintro ⟨rfl,handles,_⟩
    exact ⟨rfl,(handle_ends_iff arrived).mp handles⟩
  · rintro ⟨rfl,clear⟩
    have handles := (@handle_ends_iff _ _ _ _ _ acceptance arrived).mpr clear
    refine ⟨rfl,handles,fun other => ?_⟩
    by_cases here : other = !side
    · exact (handles.routes other side number).trans (if_pos ⟨here,rfl,rfl⟩)
    · rw [Bool.not_eq_not.mp here]
      have gone := stays_torn earlier (later ++ [.deliver (!side) acceptance]) room held
      rwa [List.foldl_append,← torn] at gone

/-- Two routes one way and one the other; the daemon that opened two tears its second down. -/
def threeRoutes : List (RouteStep Char) :=
  [.setupRoute false 'a',.setupRoute false 'b',.setupRoute true 'c',.deliver true .accepted,
    .deliver true .accepted,.deliver false .accepted,.deliver false .accepted,
    .deliver false .accepted,.deliver true .accepted]

theorem second_route_ends :
    let final := (run (threeRoutes ++ [.teardownRoute false false 2] ++ [])).perform
      (.deliver true .accepted)
    (∀ other, final.route other false 2 = none) ∧
      final.route true false 1 = some ⟨'a',.established⟩ ∧
      final.route true true 1 = some ⟨'c',.established⟩ ∧
      final.reactions true = [.inputClosed 'b'] := by
  have ends := (@teardown_ends_one Char false false 2 threeRoutes [] .accepted _ _ (by decide)
    rfl rfl).mpr ⟨rfl,rfl⟩
  exact ⟨ends.2.2,ends.2.1.routes true false 1,ends.2.1.routes true true 1,
    congrFun ends.2.1.inputs true⟩

/-- Each daemon has a route of number 1 to the other when one of them tears its own down. -/
def bothWays : List (RouteStep Char) :=
  [.setupRoute false 'a',.setupRoute true 'b',.deliver true .accepted,.deliver false .accepted,
    .deliver false .accepted,.deliver true .accepted,.teardownRoute false false 1]

theorem both_ways_ends_other :
    let next := (run bothWays).perform (.deliver true .accepted)
    (run bothWays).route true false 1 = some ⟨'a',.established⟩ ∧
      (run bothWays).route true true 1 = some ⟨'b',.established⟩ ∧
      next.route true false 1 = some ⟨'a',.established⟩ ∧ next.route true true 1 = none ∧
      next.reactions true = [.inputClosed 'b'] := by
  decide

end PeerPair

end Astrs.Daemon
