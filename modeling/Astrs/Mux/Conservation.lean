/-
Credit is conserved between two ends.

When the ends mint their own handles and announce a route before using it, an honest peer
never overruns a channel, and a drained route can always send again.
-/

import Astrs.Mux.Link

namespace Astrs.Mux

open Astrs.Base MuxShared Link

def grantedOn (route : RouteId) (frames : List MuxFrame) : Nat := frames.foldr (fun frame total =>
    (match frame with
    | .credit named delta => if named = route then delta else 0
    | _ => 0) + total) 0

/-- Where the credit of one direction of a route is: with the sender, with data in
flight, in the receiver's channel, consumed and not yet granted, or granted and on
its way back. -/
def Link.dividedCredit (link : Link) (side : Side) (route : RouteId)
    (sender receiver : RouteEntry) : Nat :=
  sender.credit + (link.wire side).countP (·.carries route) + receiver.inbound.length +
    receiver.consumedSinceGrant +
    grantedOn route ((link.ends side.peer).state.control.map Outbound.frame) +
    grantedOn route (link.wire side.peer)

def Link.announcesFirst (link : Link) : Prop :=
  ∀ side, ∀ frame ∈ link.sent side, side.ownsRoute frame.route = true →
    announcedBefore frame.route (link.sent side) = true

theorem countP_carries (route : RouteId) (frames : List MuxFrame) :
    frames.countP (·.carries route) = dataCount (signals route frames) := by
  induction frames with
  | nil => rfl
  | cons frame frames ih =>
    rw [List.countP_cons,ih,signals_cons,dataCount_append,Nat.add_comm,
      (measures_signals route frame).2]

theorem grantedOn_eq (route : RouteId) (frames : List MuxFrame) :
    grantedOn route frames = granted (signals route frames) := by
  induction frames with
  | nil => rfl
  | cons frame frames ih =>
    unfold grantedOn at ih ⊢
    rw [List.foldr_cons,ih,signals_cons,granted_append]
    congr 1
    cases frame with
    | control | datagram => rfl
    | routeAccept other window accepted =>
      by_cases same : other = route
      · cases accepted <;> simp [signals,signalOf,granted,same]
      · simp [signals,signalOf,same]
    | _ other =>
      by_cases same : other = route
      · simp [signals,signalOf,granted,same]
      · simp [signals,signalOf,same]

/-! ### The phase a run has reached -/

variable {route : RouteId}

theorem route_of_carries {frame : MuxFrame}
    (carries : frame.carries route = true) : frame.route = route := by
  cases frame with
  | routeData => exact beq_iff_eq.mp carries
  | _ => cases carries

theorem Link.announcesFirst.of_owned {link : Link} (order : link.announcesFirst) {owner : Side}
    (own : owner.ownsRoute route = true) : announcedBefore route (link.sent owner) = true := by
  by_cases used : ∃ frame ∈ link.sent owner, frame.carries route = true
  · obtain ⟨frame,mem,carries⟩ := used
    have named := route_of_carries carries
    rw [← named] at own ⊢
    exact order owner frame mem own
  · apply announcedBefore_of_none
    intro frame mem
    cases carries : frame.carries route with
    | false => rfl
    | true => exact absurd ⟨frame,mem,carries⟩ used

namespace Link

variable {config : Side → MuxConfig} {maxPayload maxRoutes : Side → Nat}

theorem run_append (link : Link) (steps : List LinkStep) (step : LinkStep) :
    link.run (steps ++ [step]) = (link.run steps).advance step :=
  List.foldl_concat _ _ _ _

variable {steps : List LinkStep}

theorem minted_append {step : LinkStep} (mints : minted (steps ++ [step]) = true) :
    minted steps = true ∧
      (∀ side route, step.opening = some (side,route) → side.ownsRoute route = true) ∧
      (∀ opened, step.opening = some opened → opened ∉ steps.filterMap LinkStep.opening) := by
  unfold minted at mints ⊢
  rw [List.filterMap_append,Bool.and_eq_true,List.all_append,Bool.and_eq_true,
    decide_eq_true_eq,List.nodup_append] at mints
  obtain ⟨⟨earlierOwn,lastOwn⟩,earlierOnce,_,apart⟩ := mints
  refine ⟨?_,?_,?_⟩
  · rw [earlierOwn,decide_eq_true earlierOnce]
    rfl
  · intro _ _ opening
    simpa [opening] using lastOwn
  · intro opened opening mem
    exact apart opened mem opened (by simp [opening]) rfl

variable {owner : Side}

/-- By the end of a run each route has gone through steps of its own protocol. -/
theorem reaches (mints : minted steps = true) (own : owner.ownsRoute route = true)
    (order : announcedBefore route
      (((start config maxPayload maxRoutes).run steps).sent owner) = true) :
    Relation.ReflTransGen (RouteLink.Step (config owner).initialWindowFrames) RouteLink.unused
      (((start config maxPayload maxRoutes).run steps).route owner route
        (decide ((owner,route) ∈ steps.filterMap LinkStep.opening))) := by
  induction steps using List.reverseRecOn with
  | nil => exact .refl
  | append_singleton steps step ih =>
    obtain ⟨earlier,owned,once⟩ := minted_append mints
    rw [run_append] at order ⊢
    obtain ⟨_,grown⟩ := sent_advance ((start config maxPayload maxRoutes).run steps) step owner
    have before : announcedBefore route
        (((start config maxPayload maxRoutes).run steps).sent owner) = true := by
      rw [grown,announcedBefore_append,Bool.and_eq_true] at order
      exact order.1
    have live := live_run (live_start config maxPayload maxRoutes) steps
    have fresh : step.opening = some (owner,route) →
        decide ((owner,route) ∈ steps.filterMap LinkStep.opening) = false := fun opening =>
      decide_eq_false (once _ opening)
    have moved := simulates live own owned fresh order
    have flag : decide ((owner,route) ∈ (steps ++ [step]).filterMap LinkStep.opening) =
        (decide ((owner,route) ∈ steps.filterMap LinkStep.opening) ||
          decide (step.opening = some (owner,route))) := by
      simp
    rw [flag]
    exact (ih earlier before).trans moved

theorem phase (windows : ∀ side, 0 < (config side).initialWindowFrames)
    (mints : minted steps = true) (own : owner.ownsRoute route = true)
    (order : ((start config maxPayload maxRoutes).run steps).announcesFirst) :
    ∃ used, RouteLink.Phase (config owner).initialWindowFrames
      (((start config maxPayload maxRoutes).run steps).route owner route used) :=
  ⟨_,RouteLink.Phase.unused.run (windows owner) (config owner).window_le
    (reaches mints own (order.of_owned own))⟩

theorem exists_owner (nonzero : route ≠ 0) : ∃ owner : Side, owner.ownsRoute route = true := by
  by_cases odd : route % 2 = 1
  · exact ⟨.initiator,by simp [Side.ownsRoute,nonzero,odd]⟩
  · exact ⟨.acceptor,by simp [Side.ownsRoute,nonzero,odd]⟩

section

variable {link : Link} {side : Side} (windows : ∀ side, 0 < (config side).initialWindowFrames)
  (mints : minted steps = true)
  (order : ((start config maxPayload maxRoutes).run steps).announcesFirst)
  (ran : (start config maxPayload maxRoutes).run steps = link) (nonzero : route ≠ 0)
include windows mints order ran nonzero

/-- A route open at both ends is in balance, seen from either. -/
theorem shared {sender receiver : RouteEntry} (sends : (link.ends side).entry route = some sender)
    (receives : (link.ends side.peer).entry route = some receiver) :
    ∃ window, Shared window sender.account ((link.ends side).routeEnd route).pending
      receiver.account ((link.ends side.peer).routeEnd route).pending
      (signals route (link.wire side)) (signals route (link.wire side.peer)) := by
  obtain ⟨owner,own⟩ := exists_owner nonzero
  obtain ⟨_,phase⟩ := phase windows mints own order
  rw [ran] at phase
  have senderOpen := congrArg RouteEnd.account (routeEnd_of_entry sends)
  have receiverOpen := congrArg RouteEnd.account (routeEnd_of_entry receives)
  rcases side.eq_or_eq_peer owner with rfl | rfl
  · exact ⟨_,phase.shared_of_open senderOpen receiverOpen⟩
  · rw [Side.peer_peer] at receiverOpen ⊢
    exact ⟨_,(phase.shared_of_open receiverOpen senderOpen).symm⟩

theorem sender_open {receiver : RouteEntry}
    (receives : (link.ends side).entry route = some receiver)
    (flying : .data ∈ signals route (link.wire side.peer)) :
    ∃ sender, (link.ends side.peer).entry route = some sender := by
  obtain ⟨owner,own⟩ := exists_owner nonzero
  obtain ⟨_,phase⟩ := phase windows mints own order
  rw [ran] at phase
  have receiverOpen : ((link.ends side).routeEnd route).account ≠ none := by
    rw [routeEnd_of_entry receives]
    intro gone
    cases gone
  have senderOpen : ((link.ends side.peer).routeEnd route).account ≠ none := by
    rcases side.eq_or_eq_peer owner with rfl | rfl
    · exact phase.peer_open_of_inward flying
    · rw [Side.peer_peer]
      exact phase.opener_open_of_peer receiverOpen
  cases held : (link.ends side.peer).entry route with
  | some sender => exact ⟨sender,rfl⟩
  | none =>
    rw [routeEnd_of_none held] at senderOpen
    exact absurd rfl senderOpen

end

theorem dividedCredit_eq (link : Link) (side : Side) (route : RouteId)
    (sender receiver : RouteEntry) :
    link.dividedCredit side route sender receiver =
      divided sender.account (signals route (link.wire side)) receiver.account
        ((link.ends side.peer).routeEnd route).pending
        (signals route (link.wire side.peer)) := by
  unfold dividedCredit divided
  rw [countP_carries,grantedOn_eq,grantedOn_eq]
  rfl

theorem full_of_violation {mux : MuxShared} {frame : MuxFrame} {named : RouteId} {window : Nat}
    (fault : (mux.dispatch frame).1 = .error (.flowControlViolation named window)) :
    ∃ route message entry, frame = .routeData route message ∧ route ≠ 0 ∧
      mux.entry route = some entry ∧ entry.capacity ≤ entry.inbound.length := by
  unfold dispatch at fault
  split at fault
  · cases fault
  · rename_i fits
    cases frame with
    | routeData route message =>
      dsimp only [dispatchRouteData] at fault
      cases held : mux.entry route with
      | none =>
        rw [held] at fault
        cases fault
      | some entry =>
        rw [held] at fault
        dsimp only at fault
        split at fault
        · cases fault
        · rename_i full
          exact ⟨route,message,entry,rfl,fun zero => fits ⟨rfl,zero⟩,held,not_lt.mp full⟩
    | control | datagram =>
      dsimp only [dispatchControl,dispatchDatagram] at fault
      split at fault
      · cases fault
      · split at fault <;> cases fault
    | routeOpen =>
      dsimp only [dispatchRouteOpen] at fault
      split at fault
      · cases fault
      · split at fault
        · split at fault <;> cases fault
        · cases fault
        · cases fault
        · rename_i failure _ _ refused
          rcases mux.insertRoute_error refused with rfl | rfl
          · simp_all
          · simp_all
    | routeAccept =>
      dsimp only [dispatchRouteAccept] at fault
      split at fault
      · split at fault <;> cases fault
      · cases fault
    | routeClose | credit => cases fault

end Link

/-- What holds of a link whose routes are in balance: each direction of a route open at
both ends is exactly divided, the next frame overruns no channel, and a drained
direction can send. -/
def Link.Conserved (link : Link) : Prop :=
  (∀ side route sender receiver, route ≠ 0 → (link.ends side).entry route = some sender →
    (link.ends side.peer).entry route = some receiver →
    link.dividedCredit side route sender receiver = receiver.window) ∧
  (∀ side frame rest route window, link.wire side.peer = frame :: rest →
    ((link.ends side).dispatch frame).1 ≠ .error (.flowControlViolation route window)) ∧
  (∀ side route sender receiver, route ≠ 0 → (link.ends side).entry route = some sender →
    (link.ends side.peer).entry route = some receiver →
    (link.wire side).countP (·.carries route) = 0 → receiver.inbound = [] →
    grantedOn route ((link.ends side.peer).state.control.map Outbound.frame) +
      grantedOn route (link.wire side.peer) = 0 →
    sender.credit ≠ 0)

/-- Two ends under any policies with a window of at least one frame, whatever they
open, queue, take, dispatch and receive: as long as each end opens handles of its
own half and each of them once, and no data precedes its route's announcement on
the link, credit is conserved. -/
theorem credit_conserved (config : Side → MuxConfig) (maxPayload maxRoutes : Side → Nat)
    (steps : List LinkStep) (windows : ∀ side, 0 < (config side).initialWindowFrames)
    (mints : minted steps = true)
    (ordered : ((Link.start config maxPayload maxRoutes).run steps).announcesFirst) :
    ((Link.start config maxPayload maxRoutes).run steps).Conserved := by
  generalize ran : (start config maxPayload maxRoutes).run steps = link
  refine ⟨?_,?_,?_⟩
  · intro _ _ _ _ nonzero sends receives
    obtain ⟨window,balanced⟩ := shared windows mints ordered ran nonzero sends receives
    rw [dividedCredit_eq,balanced.1.whole]
    exact balanced.2.settled.window_eq.symm
  · intro side _ _ _ window flying violation
    obtain ⟨named,_,receiver,rfl,nonzero,receives,full⟩ := full_of_violation violation
    have data : .data ∈ signals named (link.wire side.peer) := by
      rw [flying]
      simp [signals,signalOf]
    obtain ⟨sender,sends⟩ := sender_open windows mints ordered ran nonzero receives data
    have receives' : (link.ends side.peer.peer).entry named = some receiver := by
      rw [Side.peer_peer]
      exact receives
    obtain ⟨window,balanced⟩ := shared windows mints ordered ran nonzero sends receives'
    exact absurd (balanced.room data) (not_lt.mpr full)
  · intro _ _ _ _ nonzero sends receives delivered drained returned
    obtain ⟨_,balanced⟩ := shared windows mints ordered ran nonzero sends receives
    rw [countP_carries] at delivered
    rw [grantedOn_eq,grantedOn_eq] at returned
    exact balanced.funded delivered (congrArg List.length drained) returned

def narrowConfig : MuxConfig :=
  { MuxConfig.new with initialWindowFrames := 1, window_le := by decide }

def sampleSteps : List LinkStep :=
  [.send .initiator (.openRoute 1 []),.send .initiator (.queueRouteFrame 1 sampleMessage),
    .send .initiator (.takeBatch 8),.deliver .acceptor,.deliver .acceptor,
    .receive .acceptor 1,.send .acceptor (.takeBatch 8),.deliver .initiator]

/-- A route opened, used once, and its frame consumed and granted back. -/
theorem credit_conserved_sample :
    ((Link.start (fun _ => narrowConfig) (fun _ => 65536) (fun _ => 1)).run
      sampleSteps).Conserved := by
  refine credit_conserved (fun _ => narrowConfig) (fun _ => 65536) (fun _ => 1) sampleSteps
    (fun _ => by decide) (by decide +kernel) ?_
  intro side
  cases side
  · decide +kernel
  · decide +kernel

/-- Both ends are at their limit of one route and refuse each other's.  The refusal is
two frames; after the first the initiator opens the same handle again, sends on it,
loses it to the second and opens it a third time. -/
def reusingSteps : List LinkStep :=
  [.send .initiator (.openRoute 1 []),.send .acceptor (.openRoute 2 []),
    .send .initiator (.takeBatch 8),.send .acceptor (.takeBatch 8),
    .deliver .acceptor,.deliver .initiator,
    .send .acceptor (.takeBatch 8),.send .initiator (.takeBatch 8),
    .deliver .initiator,.deliver .acceptor,.deliver .acceptor,
    .send .initiator (.openRoute 1 []),.send .initiator (.queueRouteFrame 1 sampleMessage),
    .send .initiator (.takeBatch 8),.deliver .initiator,
    .send .initiator (.openRoute 1 []),.deliver .acceptor,.deliver .acceptor]

/-- The reused handle has one frame too many in circulation, and the next one overruns
the peer's channel although both ends are honest. -/
theorem reused_handle_overruns :
    let link := (start (fun _ => narrowConfig) (fun _ => 65536) (fun _ => 1)).run reusingSteps
    let later := link.run
      [.send .initiator (.queueRouteFrame 1 sampleMessage),.send .initiator (.takeBatch 8),
        .deliver .acceptor]
    narrowConfig.validate = .ok () ∧ link.announcesFirst ∧ later.announcesFirst ∧
      (((link.ends .initiator).entry 1).bind fun sender =>
        ((link.ends .acceptor).entry 1).map fun receiver =>
          (link.dividedCredit .initiator 1 sender receiver,receiver.window)) = some (2,1) ∧
      later.wire .initiator = [.routeData 1 sampleMessage] ∧
      ((later.ends .acceptor).dispatch (.routeData 1 sampleMessage)).1 =
        .error (.flowControlViolation 1 1) := by
  refine ⟨by decide +kernel,?_,?_,by decide +kernel,by decide +kernel,by decide +kernel⟩
  · intro side
    cases side
    · decide +kernel
    · decide +kernel
  · intro side
    cases side
    · decide +kernel
    · decide +kernel

end Astrs.Mux
