/-
Two ends joined by a reliable link in each direction.

Seen from one route, every step of the two ends is a step of that route's credit protocol
or leaves the route alone, so what the protocol keeps holds of the two multiplexers.
-/

import Astrs.Mux.Announce
import Astrs.Mux.Route

namespace Astrs.Mux

open Astrs.Base List MuxFrame MuxShared
open Function (update update_of_ne update_self)
open Relation (ReflTransGen)

/-- `wire side` holds the frames `side` has sent and its peer has not dispatched,
oldest first; `sent side` is everything it ever sent. -/
structure Link where
  ends : Side → MuxShared
  wire : Side → List MuxFrame
  sent : Side → List MuxFrame

inductive LinkStep where
  | send (side : Side) (call : SendCall)
  | receive (side : Side) (route : RouteId)
  | receiveControl (side : Side)
  | receiveDatagram (side : Side)
  | deliver (side : Side)

namespace Link

def start (config : Side → MuxConfig) (maxPayload maxRoutes : Side → Nat) : Link :=
  { ends := fun side => new (config side) side (maxPayload side) (maxRoutes side)
    wire := fun _ => []
    sent := fun _ => [] }

def setEnd (link : Link) (side : Side) (mux : MuxShared) : Link :=
  { link with ends := update link.ends side mux }

/-- A frame that waits for room in the control sink stays on the link. -/
def deliver (link : Link) (side : Side) : Link :=
  match link.wire side.peer with
  | [] => link
  | frame :: rest =>
    match (link.ends side).dispatch frame with
    | (.ok .waiting,_) => link
    | (_,mux) =>
      { link.setEnd side mux with wire := update link.wire side.peer rest }

def advance (link : Link) : LinkStep → Link
  | .send side call =>
    let done := call.perform (link.ends side)
    { ends := update link.ends side done.2
      wire := update link.wire side (link.wire side ++ done.1)
      sent := update link.sent side (link.sent side ++ done.1) }
  | .receive side route => link.setEnd side ((link.ends side).receive route).2
  | .receiveControl side => link.setEnd side (link.ends side).receiveControl
  | .receiveDatagram side => link.setEnd side (link.ends side).receiveDatagram
  | .deliver side => link.deliver side

def run (link : Link) (steps : List LinkStep) : Link := steps.foldl advance link

end Link

def LinkStep.opening : LinkStep → Option (Side × RouteId)
  | .send side (.openRoute route _) => some (side,route)
  | _ => none

/-- Every end opens handles of its own half only, and each of them once. -/
def minted (steps : List LinkStep) : Bool :=
  (steps.filterMap LinkStep.opening).all (fun opened => opened.1.ownsRoute opened.2) &&
    decide (steps.filterMap LinkStep.opening).Nodup

/-! ### One route of the link -/

theorem Side.eq_or_eq_peer (side owner : Side) : side = owner ∨ side = owner.peer := by
  cases side <;> cases owner <;> simp [Side.peer]

theorem Side.peer_ne (side : Side) : side.peer ≠ side := by
  cases side <;> simp [Side.peer]

@[simp] theorem Side.peer_peer (side : Side) : side.peer.peer = side := by
  cases side <;> rfl

/-- An end that is up, on its side of the link and under its policy. -/
structure Live (config : Side → MuxConfig) (side : Side) (mux : MuxShared) : Prop where
  setup : mux.setup = (side,config side,false,true)
  filed : mux.state.Filed

section

variable {config : Side → MuxConfig} {side : Side} {mux : MuxShared} (live : Live config side mux)
include live

theorem Live.connected : mux.closed = false := congrArg (fun setup => setup.2.2.1) live.setup

theorem Live.sinks : mux.state.inbound.isSome = true :=
  congrArg (fun setup => setup.2.2.2) live.setup

theorem Live.config_eq : mux.config = config side := congrArg (fun setup => setup.2.1) live.setup

end

namespace Link

def route (link : Link) (owner : Side) (named : RouteId) (used : Bool) : RouteLink :=
  { opener := (link.ends owner).routeEnd named
    peer := (link.ends owner.peer).routeEnd named
    outward := signals named (link.wire owner)
    inward := signals named (link.wire owner.peer)
    used := used
    announced := (link.sent owner).any (·.opens named) }

def hand (link : Link) (side : Side) (mux : MuxShared) (frames : List MuxFrame) : Link :=
  { ends := update link.ends side mux
    wire := update link.wire side (link.wire side ++ frames)
    sent := update link.sent side (link.sent side ++ frames) }

section

variable (link : Link) (owner : Side) (mux : MuxShared) (frames : List MuxFrame)
  (named : RouteId) (used : Bool)

theorem route_hand_owner : (link.hand owner mux frames).route owner named used =
      { link.route owner named used with
        opener := mux.routeEnd named
        outward := signals named (link.wire owner) ++ signals named frames
        announced := (link.sent owner).any (·.opens named) || frames.any (·.opens named) } := by
  simp [route,hand,update_of_ne owner.peer_ne]

theorem route_hand_peer : (link.hand owner.peer mux frames).route owner named used =
      { link.route owner named used with
        peer := mux.routeEnd named
        inward := signals named (link.wire owner.peer) ++ signals named frames } := by
  simp [route,hand,update_of_ne owner.peer_ne.symm]

end

theorem any_opens_signals (named : RouteId) (frames : List MuxFrame) :
    frames.any (·.opens named) = (signals named frames).any Signal.isAnnounce := by
  induction frames with
  | nil => rfl
  | cons frame frames ih =>
    rw [any_cons,ih,signals_cons,any_append,(measures_signals named frame).1]

variable {named : RouteId} {link : Link} {owner side : Side} {used : Bool} {window : Nat}
  {mux : MuxShared} {frames : List MuxFrame} {frame : MuxFrame}

theorem step_of_acts
    (act : ((link.ends side).routeEnd named).Acts (signals named frames) (mux.routeEnd named))
    (ordered : side = owner → .data ∈ signals named frames →
      (link.sent owner).any (·.opens named) = true) :
    (link.route owner named used).Step window ((link.hand side mux frames).route owner named used) := by
  rcases side.eq_or_eq_peer owner with rfl | rfl
  · rw [route_hand_owner,any_opens_signals named frames]
    exact .openerActs act (ordered rfl)
  · rw [route_hand_peer]
    exact .peerActs act

theorem route_hand_quiet (silent : signals named frames = [])
    (same : mux.routeEnd named = (link.ends side).routeEnd named) :
    (link.hand side mux frames).route owner named used = link.route owner named used := by
  rcases side.eq_or_eq_peer owner with rfl | rfl
  · rw [route_hand_owner,any_opens_signals named frames,silent,same]
    simp [route]
  · rw [route_hand_peer,silent,same]
    simp [route]

theorem hand_hand (link : Link) (side : Side) (first second : MuxShared)
    (front back : List MuxFrame) :
    (link.hand side first front).hand side second back = link.hand side second (front ++ back) := by
  simp [hand,append_assoc]

theorem route_hand_congr (link : Link) (owner side : Side) {first second : MuxShared}
    (frames : List MuxFrame) (used : Bool) (same : first.routeEnd named = second.routeEnd named) :
    (link.hand side first frames).route owner named used =
      (link.hand side second frames).route owner named used := by
  rcases side.eq_or_eq_peer owner with rfl | rfl
  · rw [route_hand_owner,route_hand_owner,same]
  · rw [route_hand_peer,route_hand_peer,same]

theorem carries_of_data (data : .data ∈ signals named [frame]) : frame.carries named = true := by
  cases frame with
  | routeData => simpa [signals,signalOf,carries] using data
  | routeAccept other window accepted =>
    cases accepted <;> simp [signals,signalOf] at data
  | _ => simp [signals,signalOf] at data

theorem announcedBefore_last (ordered : announcedBefore named (frames ++ [frame]) = true) :
    announcedBefore named frames = true ∧
      (frame.carries named = true → frames.any (·.opens named) = true) := by
  rw [announcedBefore_append,Bool.and_eq_true,Bool.or_eq_true] at ordered
  refine ⟨ordered.1,fun carries => ?_⟩
  rcases ordered.2 with out | single
  · exact out
  · cases frame with
    | routeData => simp [announcedBefore,opens,carries] at single
    | _ => cases carries

/-- The route's protocol goes from where one link has it to where the other does. -/
abbrev Runs (window : Nat) (owner : Side) (named : RouteId) (used : Bool) (link next : Link) : Prop :=
  ReflTransGen (RouteLink.Step window) (link.route owner named used) (next.route owner named used)

theorem run_of_takeBatch (filed : (link.ends side).state.Filed) (max : Nat)
    (ordered : side = owner → announcedBefore named
      (link.sent owner ++ ((link.ends side).takeBatch max).1.map Outbound.frame) = true) :
    Runs window owner named used link (link.hand side ((link.ends side).takeBatch max).2
      (((link.ends side).takeBatch max).1.map Outbound.frame)) := by
  let mux := link.ends side
  refine (MuxState.takeWithin_induct (motive := fun taken state => state.Filed ∧ ((side = owner →
        announcedBefore named (link.sent owner ++ taken.map Outbound.frame) = true) →
      Runs window owner named used link
        (link.hand side { mux with state := state } (taken.map Outbound.frame))))
    ?turn ?pop max [] mux.state ?start).2 ordered
  case start =>
    refine ⟨filed,fun _ => ?_⟩
    rw [map_nil,Runs,route_hand_quiet rfl rfl]
  case turn =>
    intro _ state order kept
    refine ⟨kept.1.turned order,fun held => ?_⟩
    rw [Runs,route_hand_congr link owner side _ used
      (show routeEnd { mux with state := { state with order := order } } named =
        routeEnd { mux with state := state } named from rfl)]
    exact kept.2 held
  case pop =>
    intro taken state item next popped ⟨filedNow,reached⟩
    refine ⟨filedNow.pops popped,fun held => ?_⟩
    rw [map_append,map_singleton] at held ⊢
    have earlier := reached fun own => by
      have last := held own
      rw [← append_assoc] at last
      exact (announcedBefore_last last).1
    rw [← hand_hand link side { mux with state := state }]
    have present : (link.hand side { mux with state := state } (taken.map Outbound.frame)).ends side =
        { mux with state := state } := update_self _ _ _
    rcases acts_of_pops filedNow popped named with ⟨silent,same⟩ | act
    · rw [Runs,route_hand_quiet silent (by rw [present]; exact same)]
      exact earlier
    · refine earlier.tail (step_of_acts (by rw [present]; exact act) ?_)
      intro own data
      subst own
      have last := held rfl
      rw [← append_assoc] at last
      have out := (announcedBefore_last last).2 (carries_of_data data)
      rw [show (link.hand side { mux with state := state } (taken.map Outbound.frame)).sent side =
        link.sent side ++ taken.map Outbound.frame from update_self _ _ _]
      exact out

/-- Opening the route itself, for the first time. -/
theorem run_of_openRoute (descriptor : Bytes) :
    ReflTransGen (RouteLink.Step (link.ends owner).config.initialWindowFrames)
      (link.route owner named false)
      ((link.hand owner ((link.ends owner).openRoute named descriptor).2 []).route owner named
        true) := by
  apply ReflTransGen.single
  have start : link.route owner named true =
      { link.route owner named false with used := true } := rfl
  rcases (link.ends owner).openRoute_cases named descriptor with
    ⟨failure,same⟩ | ⟨inserted,_,done,outcome⟩
  · rw [same,route_hand_quiet rfl rfl,start]
    exact .fails
  · have entered := routeEnd_insertRoute done
    rcases outcome with ⟨failure,unsent⟩ | announced
    · rw [unsent,route_hand_owner,entered]
      have opened := @RouteLink.Step.opens (link.ends owner).config.initialWindowFrames
        (link.route owner named false) [] rfl (.inl rfl)
      simpa [route] using opened
    · rw [announced,route_hand_owner,routeEnd_pushControl,entered]
      have opened := @RouteLink.Step.opens (link.ends owner).config.initialWindowFrames
        (link.route owner named false) _ rfl (.inr rfl)
      simpa [route,signals,signalOf] using opened

theorem quiet_hand (same : mux.routeEnd named = (link.ends side).routeEnd named) :
    Runs window owner named used link (link.hand side mux []) := by
  rw [Runs,route_hand_quiet rfl same]

theorem run_of_send (filed : (link.ends side).state.Filed) (nonzero : named ≠ 0) {call : SendCall}
    (other : ∀ descriptor, call ≠ .openRoute named descriptor)
    (ordered : side = owner → announcedBefore named
      (link.sent owner ++ (call.perform (link.ends side)).1) = true) :
    Runs window owner named used link (link.advance (.send side call)) := by
  cases call with
  | takeBatch max => exact run_of_takeBatch filed max ordered
  | openRoute opened descriptor =>
    have differs : named ≠ opened := fun same => other descriptor (by rw [same])
    exact quiet_hand ((Touches.openRoute _ opened descriptor).routeEnd_eq nonzero differs)
  | queueControl message =>
    exact quiet_hand ((Touches.queueControl _ message).routeEnd_eq nonzero nonzero)
  | queueDatagram message =>
    exact quiet_hand ((Touches.queueDatagram _ message).routeEnd_eq nonzero nonzero)
  | queueRouteFrame served message =>
    exact quiet_hand (routeEnd_queueRouteFrame _ served message nonzero)

theorem setEnd_eq_hand (link : Link) (side : Side) (mux : MuxShared) :
    link.setEnd side mux = link.hand side mux [] := by
  simp [setEnd,hand]

theorem run_of_receive (connected : (link.ends side).closed = false) (received : RouteId)
    (nonzero : named ≠ 0) :
    Runs window owner named used link (link.advance (.receive side received)) := by
  change Runs window owner named used link (link.setEnd side _)
  rw [setEnd_eq_hand,Runs]
  rcases acts_of_receive connected received nonzero with same | act
  · rw [route_hand_quiet rfl same]
  · apply ReflTransGen.single
    apply step_of_acts act
    exact nofun

/-- Dispatching the oldest frame on the way to an end. -/
theorem run_of_deliver (connected : (link.ends side).closed = false)
    (sinks : (link.ends side).state.inbound.isSome = true) (nonzero : named ≠ 0) :
    Runs window owner named used link (link.deliver side) := by
  unfold deliver
  cases flying : link.wire side.peer with
  | nil => exact .refl
  | cons frame rest =>
    dsimp only
    have taken : Runs window owner named used link
        { link.setEnd side ((link.ends side).dispatch frame).2 with
          wire := update link.wire side.peer rest } := by
      cases about : signalOf named frame with
      | none =>
        have same := (Touches.dispatch (link.ends side) frame).routeEnd_eq nonzero
          ((signalOf_eq_none_iff nonzero).mp about)
        unfold Runs
        have passed : signals named (link.wire side.peer) = signals named rest := by
          rw [flying]
          simp [signals,about]
        rcases side.eq_or_eq_peer owner with rfl | rfl
        · simp [route,setEnd,update_of_ne side.peer_ne,update_of_ne side.peer_ne.symm,same,passed]
          exact .refl
        · rw [Side.peer_peer] at passed
          simp [route,setEnd,update_of_ne owner.peer_ne,update_of_ne owner.peer_ne.symm,same,passed]
          exact .refl
      | some signal =>
        have absorbed := absorbs_of_dispatch connected sinks nonzero about
        have first : signals named (link.wire side.peer) = signal :: signals named rest := by
          rw [flying]
          simp [signals,about]
        apply ReflTransGen.single
        rcases side.eq_or_eq_peer owner with rfl | rfl
        · have moved := @RouteLink.Step.openerAbsorbs window (link.route side named used)
            signal (signals named rest) _ first absorbed
          simpa [route,setEnd,update_of_ne side.peer_ne,update_of_ne side.peer_ne.symm] using moved
        · rw [Side.peer_peer] at first
          have moved := @RouteLink.Step.peerAbsorbs window (link.route owner named used)
            signal (signals named rest) _ first absorbed
          simpa [route,setEnd,update_of_ne owner.peer_ne,
            update_of_ne owner.peer_ne.symm] using moved
    generalize (link.ends side).dispatch frame = outcome at taken ⊢
    obtain ⟨_,_⟩ := outcome
    split
    · exact .refl
    · rename_i other _ same
      cases same
      exact taken

variable {config : Side → MuxConfig}

theorem live_update {ends : Side → MuxShared} (live : ∀ side, Live config side (ends side))
    {changed : Side} (kept : (ends changed).Keeps mux) :
    ∀ side, Live config side (update ends changed mux side) := by
  apply (Function.forall_update_iff ends (Live config)).mpr
  constructor
  · exact ⟨kept.setup.trans (live changed).setup,kept.filed (live changed).filed⟩
  · exact fun side _ => live side

theorem live_advance (live : ∀ side, Live config side (link.ends side)) (step : LinkStep) :
    ∀ side, Live config side ((link.advance step).ends side) := by
  cases step with
  | send changed call => exact live_update live (.send _ call)
  | receive changed route => exact live_update live (Touches.receive _ route).toKeeps
  | receiveControl changed => exact live_update live (Touches.receiveControl _).toKeeps
  | receiveDatagram changed => exact live_update live (Touches.receiveDatagram _).toKeeps
  | deliver changed =>
    change ∀ side, Live config side ((link.deliver changed).ends side)
    unfold deliver
    split
    · exact live
    · rename_i frame rest _
      have kept := (Touches.dispatch (link.ends changed) frame).toKeeps
      split
      · exact live
      · rename_i result mux _ outcome
        rw [outcome] at kept
        exact live_update live kept

theorem live_start (config : Side → MuxConfig) (maxPayload maxRoutes : Side → Nat) (side : Side) :
    Live config side ((start config maxPayload maxRoutes).ends side) :=
  ⟨rfl,MuxState.Filed.new _ _ _ _⟩

theorem live_run (live : ∀ side, Live config side (link.ends side)) (steps : List LinkStep) :
    ∀ side, Live config side ((link.run steps).ends side) := by
  induction steps generalizing link with
  | nil => exact live
  | cons step _ ih => exact ih (live_advance live step)

theorem sent_send (link : Link) (side : Side) (call : SendCall) :
    (link.advance (.send side call)).sent side =
      link.sent side ++ (call.perform (link.ends side)).1 :=
  update_self _ _ _

/-- What has been sent is never taken back. -/
theorem sent_advance (link : Link) (step : LinkStep) (side : Side) :
    ∃ frames, (link.advance step).sent side = link.sent side ++ frames := by
  cases step with
  | send changed call =>
    by_cases same : side = changed
    · subst same
      exact ⟨_,sent_send link side call⟩
    · exact ⟨[],(update_of_ne same _ _).trans (append_nil _).symm⟩
  | deliver changed =>
    change ∃ frames, (link.deliver changed).sent side = _
    unfold deliver
    repeat' split
    all_goals exact ⟨[],(append_nil _).symm⟩
  | _ => exact ⟨[],(append_nil _).symm⟩

theorem not_opening {step : LinkStep} (quiet : step.opening = none) (used : Bool)
    (opened : Side × RouteId) : (used || decide (step.opening = some opened)) = used := by
  rw [quiet]
  cases used <;> rfl

theorem simulates (live : ∀ side, Live config side (link.ends side))
    (own : owner.ownsRoute named = true) {step : LinkStep}
    (owned : ∀ side route, step.opening = some (side,route) → side.ownsRoute route = true)
    (fresh : step.opening = some (owner,named) → used = false)
    (ordered : announcedBefore named ((link.advance step).sent owner) = true) :
    ReflTransGen (RouteLink.Step (config owner).initialWindowFrames) (link.route owner named used)
      ((link.advance step).route owner named
        (used || decide (step.opening = some (owner,named)))) := by
  have nonzero : named ≠ 0 := by
    intro zero
    rw [zero] at own
    cases own
  cases step with
  | send side call =>
    by_cases opening : ∃ descriptor, call = .openRoute named descriptor
    · obtain ⟨descriptor,rfl⟩ := opening
      have same : side = owner := by
        have parity := owned side named rfl
        cases side <;> cases owner <;> simp_all [Side.ownsRoute]
      subst same
      rw [fresh rfl,← (live side).config_eq]
      have flag : decide ((LinkStep.send side (.openRoute named descriptor)).opening =
          some (side,named)) = true := decide_eq_true rfl
      rw [flag]
      exact run_of_openRoute descriptor
    · have other : ∀ descriptor, call ≠ .openRoute named descriptor := fun descriptor same =>
        opening ⟨descriptor,same⟩
      have flag : decide ((LinkStep.send side call).opening = some (owner,named)) = false := by
        apply decide_eq_false
        cases call with
        | openRoute opened descriptor =>
          intro same
          exact other descriptor (by rw [(Prod.mk.inj (Option.some.inj same)).2])
        | _ =>
          intro same
          cases same
      rw [flag,Bool.or_false]
      apply run_of_send (live side).filed nonzero other
      intro same
      subst same
      rw [sent_send] at ordered
      exact ordered
  | receive side route =>
    rw [not_opening (by rfl)]
    exact run_of_receive (live side).connected route nonzero
  | receiveControl side | receiveDatagram side =>
    rw [not_opening (by rfl)]
    change Runs _ owner named used link (link.setEnd side _)
    rw [setEnd_eq_hand]
    apply quiet_hand
    rfl
  | deliver side =>
    rw [not_opening (by rfl)]
    exact run_of_deliver (live side).connected (live side).sinks nonzero

end Link

end Astrs.Mux
