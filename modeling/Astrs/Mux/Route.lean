/-
One route of one end, as the route's protocol sees it.

An end's tables are reduced to the route's account and the queued frames that concern it;
what an operation does to them is an act of the route's end or leaves them alone.
-/

import Astrs.Mux.Calls
import Astrs.Mux.Credit

namespace Astrs.Mux

open Astrs.Base MuxShared MuxFrame

/-! ### One route of an end -/

def signalOf (route : RouteId) : MuxFrame → Option Signal
  | .routeData named _ => if named = route then some .data else none
  | .routeOpen named window _ => if named = route then some (.announce window) else none
  | .routeAccept named window accepted _ =>
    if named = route then some (if accepted then .accept window else .refuse) else none
  | .routeClose named _ _ => if named = route then some .close else none
  | .credit named delta => if named = route then some (.credit delta) else none
  | .control _ => none
  | .datagram _ => none

def signals (route : RouteId) (frames : List MuxFrame) : List Signal :=
  frames.filterMap (signalOf route)

@[simp] theorem signals_nil (route : RouteId) : signals route [] = [] := rfl

@[simp] theorem signals_append (route : RouteId) (front back : List MuxFrame) :
    signals route (front ++ back) = signals route front ++ signals route back :=
  List.filterMap_append

theorem signals_cons (route : RouteId) (frame : MuxFrame) (frames : List MuxFrame) :
    signals route (frame :: frames) = signals route [frame] ++ signals route frames :=
  signals_append route [frame] frames

/-- A frame opens and carries data as its signal does. -/
theorem measures_signals (route : RouteId) (frame : MuxFrame) :
    frame.opens route = (signals route [frame]).any Signal.isAnnounce ∧
      dataCount (signals route [frame]) = (if frame.carries route = true then 1 else 0) := by
  cases frame with
  | control | datagram => exact ⟨rfl,rfl⟩
  | routeAccept named window accepted =>
    by_cases same : named = route
    · cases accepted <;> simp [signals,signalOf,opens,carries,Signal.isAnnounce,dataCount,same]
    · simp [signals,signalOf,opens,carries,same]
  | _ named =>
    by_cases same : named = route
    · simp [signals,signalOf,opens,carries,Signal.isAnnounce,dataCount,same]
    · simp [signals,signalOf,opens,carries,same]

def RouteEntry.account (entry : RouteEntry) : Account :=
  { credit := entry.credit
    window := entry.window
    consumed := entry.consumedSinceGrant
    capacity := entry.capacity
    buffered := entry.inbound.length }

def MuxState.routeEnd (state : MuxState) (route : RouteId) : RouteEnd :=
  { account := (state.routes.get route).map RouteEntry.account
    pending := signals route (state.control.map Outbound.frame) }

namespace MuxShared

def routeEnd (mux : MuxShared) (route : RouteId) : RouteEnd := mux.state.routeEnd route

variable (mux : MuxShared)

theorem routeEnd_pushControl (frame : MuxFrame) (route : RouteId) :
    (mux.pushControl (Outbound.control frame)).routeEnd route =
      ⟨(mux.routeEnd route).account,(mux.routeEnd route).pending ++ signals route [frame]⟩ := by
  unfold routeEnd MuxState.routeEnd
  rw [control_pushControl,List.map_append,signals_append]
  rfl

theorem routeEnd_grantCredit (named route : RouteId) {delta : Nat}
    (connected : mux.closed = false) (pos : delta ≠ 0) :
    (mux.grantCredit named delta).routeEnd route = ⟨(mux.routeEnd route).account,
        (mux.routeEnd route).pending ++ signals route [.credit named delta]⟩ := by
  unfold grantCredit
  rw [if_neg (by simp [pos,connected])]
  exact mux.routeEnd_pushControl (.credit named delta) route

theorem routeEnd_setEntry (route : RouteId) (entry : RouteEntry) :
    (mux.setEntry route entry).routeEnd route =
      ⟨some entry.account,(mux.routeEnd route).pending⟩ := by
  unfold routeEnd MuxState.routeEnd
  rw [show (mux.setEntry route entry).state.routes.get route = some entry from
    (mux.entry_setEntry route route entry).trans (if_pos rfl)]
  rfl

theorem routeEnd_of_entry {mux : MuxShared} {route : RouteId} {entry : RouteEntry}
    (held : mux.entry route = some entry) :
    mux.routeEnd route = ⟨some entry.account,(mux.routeEnd route).pending⟩ := by
  unfold routeEnd MuxState.routeEnd
  rw [show mux.state.routes.get route = some entry from held]
  rfl

theorem routeEnd_of_none {mux : MuxShared} {route : RouteId} (absent : mux.entry route = none) :
    mux.routeEnd route = ⟨none,(mux.routeEnd route).pending⟩ := by
  unfold routeEnd MuxState.routeEnd
  rw [show mux.state.routes.get route = none from absent]
  rfl

theorem routeEnd_closeRouteLocally (route : RouteId) :
    (mux.closeRouteLocally route).routeEnd route = ⟨none,(mux.routeEnd route).pending⟩ := by
  have entry := mux.entry_closeRouteLocally route route
  rw [if_pos rfl] at entry
  rw [routeEnd_of_none entry]
  unfold routeEnd MuxState.routeEnd
  rw [control_closeRouteLocally]

theorem routeEnd_insertRoute {mux added : MuxShared} {route : RouteId} {window : Nat}
    {confirmed : Bool} (done : mux.insertRoute route window confirmed = .ok added) :
    added.routeEnd route = ⟨some (Account.fresh window),(mux.routeEnd route).pending⟩ := by
  rw [insertRoute_ok done]
  exact mux.routeEnd_setEntry route (RouteEntry.fresh window confirmed)

end MuxShared

theorem signalOf_eq_none_iff {route : RouteId} {frame : MuxFrame} (nonzero : route ≠ 0) :
    signalOf route frame = none ↔ route ≠ frame.route := by
  cases frame with
  | control | datagram => exact ⟨fun _ => nonzero,fun _ => rfl⟩
  | _ => simp [signalOf,MuxFrame.route,eq_comm]

/-- What is done to one route is not seen from another. -/
theorem MuxShared.Touches.routeEnd_eq {mux next : MuxShared} {named route : RouteId}
    (touches : mux.Touches named next) (nonzero : route ≠ 0) (differs : route ≠ named) :
    next.routeEnd route = mux.routeEnd route := by
  obtain ⟨items,queued,about⟩ := touches.control
  have silent : signals route (items.map Outbound.frame) = [] := by
    refine List.filterMap_eq_nil_iff.mpr fun frame mem => ?_
    obtain ⟨item,held,rfl⟩ := List.mem_map.mp mem
    rw [signalOf_eq_none_iff nonzero,about item held]
    exact differs
  unfold routeEnd MuxState.routeEnd
  rw [queued,List.map_append,signals_append,silent,List.append_nil,
    show next.state.routes.get route = mux.state.routes.get route from touches.entry route differs]

theorem acts_of_pops {controlBurst : Nat} {state next : MuxState} {item : Outbound}
    (filed : state.Filed) (popped : state.Pops controlBurst item next) (route : RouteId) :
    (signals route [item.frame] = [] ∧ next.routeEnd route = state.routeEnd route) ∨
    (state.routeEnd route).Acts (signals route [item.frame]) (next.routeEnd route) := by
  cases popped with
  | @control item rest order queued =>
    have pending : (state.routeEnd route).pending =
        signals route [item.frame] ++ signals route (rest.map Outbound.frame) := by
      unfold MuxState.routeEnd
      rw [queued,← signals_append]
      rfl
    cases signal : signalOf route item.frame with
    | none =>
      have silent : signals route [item.frame] = [] := by simp [signals,signal]
      rw [silent,List.nil_append] at pending
      exact .inl ⟨silent,congrArg (RouteEnd.mk _) pending.symm⟩
    | some found =>
      have single : signals route [item.frame] = [found] := by simp [signals,signal]
      rw [single] at pending ⊢
      have before : state.routeEnd route =
          ⟨(state.routeEnd route).account,found :: signals route (rest.map Outbound.frame)⟩ :=
        congrArg (RouteEnd.mk _) pending
      rw [before]
      exact .inr (.emit _ _ _)
  | @datagram item rest order idle queued =>
    obtain ⟨message,datagram⟩ := filed.datagrams item (queued ▸ List.mem_cons_self)
    left
    rw [datagram]
    exact ⟨rfl,rfl⟩
  | @route served entry item rest order yielded held queued ready =>
    obtain ⟨message,data⟩ := filed.queues served entry held item (queued ▸ List.mem_cons_self)
    subst data
    by_cases same : served = route
    · subst same
      right
      have before : state.routeEnd served =
          ⟨some entry.account,(state.routeEnd served).pending⟩ := by
        unfold MuxState.routeEnd
        rw [held]
        rfl
      have sent : signals served [routeData served message] = [.data] := by
        simp [signals,signalOf]
      rw [before,sent]
      unfold MuxState.routeEnd
      rw [OrderedMap.get_insert,if_pos rfl]
      exact .spend entry.account _ (ready rfl)
    · left
      constructor
      · simp [signals,signalOf,same]
      · unfold MuxState.routeEnd
        rw [OrderedMap.get_insert,if_neg same]

variable {mux : MuxShared}

/-- The application of an open connection takes a frame: the route is left alone, or
its end consumes one frame and grants what is due. -/
theorem acts_of_receive (connected : mux.closed = false) (named : RouteId) {route : RouteId}
    (nonzero : route ≠ 0) :
    (mux.receive named).2.routeEnd route = mux.routeEnd route ∨
    (mux.routeEnd route).Acts [] ((mux.receive named).2.routeEnd route) := by
  by_cases same : route = named
  · subst same
    rcases mux.receive_cases route with none | ⟨entry,message,rest,held,buffered,received⟩
    · rw [none]
      exact .inl rfl
    · right
      rw [received,routeEnd_of_entry held]
      have taken : (mux.setEntry route { entry with inbound := rest }).entry route =
          some { entry with inbound := rest } := by
        rw [entry_setEntry,if_pos rfl]
      have one : entry.account.buffered = rest.length + 1 := by
        change entry.inbound.length = _
        rw [buffered]
        rfl
      rcases noteConsumed_cases _ taken with ⟨below,noted⟩ | given
      · rw [noted,routeEnd_setEntry,routeEnd_setEntry]
        exact .consume entry.account _ one below
      · have counted : saturatingAdd entry.consumedSinceGrant 1 ≠ 0 := by
          unfold saturatingAdd u32Max
          omega
        have sent : signals route [credit route (saturatingAdd entry.consumedSinceGrant 1)] =
            [.credit (saturatingAdd entry.account.consumed 1)] := by
          simp [signals,signalOf,RouteEntry.account]
        rw [given,routeEnd_grantCredit _ _ _ (by exact connected) (by exact counted),
          routeEnd_setEntry,routeEnd_setEntry,sent]
        exact .grant entry.account _ one
  · exact .inl ((Touches.receive mux named).routeEnd_eq nonzero same)

/-! ### An end takes a frame -/

namespace MuxShared

theorem dispatchRouteOpen_cases (connected : mux.state.inbound.isSome = true)
    (named : RouteId) (credit : Nat) (descriptor : Bytes) :
    (∃ code detail, (mux.dispatchRouteOpen named credit descriptor).2 =
      mux.rejectRoute named code detail) ∨
    (∃ window added offered, (credit ≠ 0 → window = credit) ∧ mux.entry named = none ∧
      mux.insertRoute named window true = .ok added ∧
      (∀ route, routeEnd offered route = added.routeEnd route) ∧
      (mux.dispatchRouteOpen named credit descriptor).2 =
        offered.answerOpen named window true "") := by
  unfold dispatchRouteOpen
  dsimp only
  split
  · exact .inl ⟨_,_,rfl⟩
  · have kept : credit ≠ 0 →
        (if credit = 0 then mux.config.initialWindowFrames else credit) = credit := fun pos =>
      if_neg pos
    generalize (if credit = 0 then mux.config.initialWindowFrames else credit) = window at kept ⊢
    by_cases present : (mux.entry named).isSome = true
    · have refused : mux.insertRoute named window true = .error (.duplicateRoute named) :=
        if_pos present
      rw [refused]
      exact .inl ⟨_,_,rfl⟩
    · by_cases full : mux.maxRoutes ≤ mux.state.routes.len
      · have refused : mux.insertRoute named window true =
            .error (.routeLimitReached mux.maxRoutes) :=
          (if_neg present).trans (if_pos full)
        rw [refused]
        exact .inl ⟨_,_,rfl⟩
      · obtain ⟨_,up⟩ := Option.isSome_iff_exists.mp connected
        have done : mux.insertRoute named window true = .ok _ :=
          (if_neg present).trans (if_neg full)
        rw [done]
        dsimp only
        rw [up]
        refine .inr ⟨window,_,_,kept,by simpa using present,done,?_,rfl⟩
        intro _
        rfl

theorem routeEnd_answerOpen (mux : MuxShared) (route : RouteId) (credit : Nat) (accepted : Bool)
    (detail : String) :
    (mux.answerOpen route credit accepted detail).routeEnd route = ⟨(mux.routeEnd route).account,
        (mux.routeEnd route).pending ++ [if accepted then .accept credit else .refuse]⟩ := by
  unfold answerOpen
  rw [routeEnd_pushControl]
  simp [signals,signalOf]

theorem routeEnd_rejectRoute (mux : MuxShared) (route : RouteId) (code : Nat) (detail : String) :
    (mux.rejectRoute route code detail).routeEnd route =
      ⟨(mux.routeEnd route).account,(mux.routeEnd route).pending ++ [.refuse,.close]⟩ := by
  have closing : signals route [routeClose route code detail] = [.close] := by
    simp [signals,signalOf]
  unfold rejectRoute
  rw [routeEnd_pushControl,routeEnd_answerOpen,closing,List.append_assoc]
  rfl

theorem routeEnd_closeRoute (connected : mux.closed = false) {route : RouteId}
    {entry : RouteEntry} (held : mux.entry route = some entry) (code : Nat) (detail : String) :
    (mux.closeRoute route code detail).routeEnd route =
      ⟨none,(mux.routeEnd route).pending ++ [.close]⟩ := by
  unfold closeRoute
  rw [if_pos (by rw [held]; rfl),if_neg (by simp [connected]),routeEnd_pushControl,
    routeEnd_closeRouteLocally]
  simp [signals,signalOf]

end MuxShared

variable {route : RouteId} {signal : Signal} {frame : MuxFrame}

theorem absorbs_stray (absent : mux.entry route = none) (plain : signal.isAnnounce = false) :
    (mux.routeEnd route).Absorbs signal (mux.routeEnd route) := by
  rw [routeEnd_of_none absent]
  apply RouteEnd.Absorbs.stray
  intro _ same
  rw [same] at plain
  cases plain

theorem absorbs_routeData (connected : mux.closed = false) (route : RouteId) (message : Message) :
    (mux.routeEnd route).Absorbs .data ((mux.dispatchRouteData route message).2.routeEnd route) := by
  unfold dispatchRouteData
  cases held : mux.entry route with
  | none => exact absorbs_stray held rfl
  | some entry =>
    dsimp only
    rw [routeEnd_of_entry held]
    split
    · rename_i room
      have longer : ({ entry with inbound := entry.inbound ++ [message] } : RouteEntry).account =
          { entry.account with buffered := entry.account.buffered + 1 } := by
        simp [RouteEntry.account]
      rw [routeEnd_setEntry,longer]
      exact .buffer entry.account _ room
    · rename_i full
      dsimp only
      rw [routeEnd_closeRoute connected held]
      exact .overrun entry.account _ (not_lt.mp full)

theorem absorbs_routeOpen (sinks : mux.state.inbound.isSome = true) (route : RouteId) (credit : Nat)
    (descriptor : Bytes) :
    (mux.routeEnd route).Absorbs (.announce credit)
      ((mux.dispatchRouteOpen route credit descriptor).2.routeEnd route) := by
  rcases dispatchRouteOpen_cases sinks route credit descriptor with
    ⟨code,detail,refused⟩ | ⟨window,added,offered,asked,absent,done,same,joined⟩
  · rw [refused,routeEnd_rejectRoute]
    exact .reject _ _ credit
  · rw [joined,routeEnd_answerOpen,same,routeEnd_insertRoute done,routeEnd_of_none absent]
    exact .join _ asked

section

variable (mux) (route)

/-- Both a refusal and a close drop the entry. -/
theorem absorbs_closing :
    (mux.routeEnd route).Absorbs .refuse ((mux.closeRouteLocally route).routeEnd route) ∧
    (mux.routeEnd route).Absorbs .close ((mux.closeRouteLocally route).routeEnd route) := by
  rw [routeEnd_closeRouteLocally]
  cases held : mux.entry route with
  | none =>
    rw [← routeEnd_of_none held]
    exact ⟨absorbs_stray held rfl,absorbs_stray held rfl⟩
  | some entry =>
    rw [routeEnd_of_entry held]
    exact ⟨.refuse entry.account _,.close entry.account _⟩

theorem absorbs_routeAccept (credit : Nat) (accepted : Bool) :
    (mux.routeEnd route).Absorbs (if accepted then .accept credit else .refuse)
      ((mux.dispatchRouteAccept route credit accepted).2.routeEnd route) := by
  unfold dispatchRouteAccept
  cases accepted with
  | false => exact (absorbs_closing mux route).1
  | true =>
    rw [if_pos rfl,if_pos rfl]
    cases held : mux.entry route with
    | none => exact absorbs_stray held rfl
    | some entry =>
      rw [routeEnd_of_entry held,routeEnd_setEntry]
      exact .confirm entry.account _ credit

theorem absorbs_addCredit (delta : Nat) :
    (mux.routeEnd route).Absorbs (.credit delta) ((mux.addCredit route delta).routeEnd route) := by
  unfold addCredit
  cases held : mux.entry route with
  | none => exact absorbs_stray held rfl
  | some entry =>
    rw [routeEnd_of_entry held,routeEnd_setEntry]
    exact .credit entry.account _ delta

end

variable {named : RouteId}

theorem signalOf_named {candidate : Signal}
    (about : (if named = route then some candidate else none) = some signal) :
    named = route ∧ candidate = signal := by
  split at about
  · rename_i same
    exact ⟨same,Option.some.inj about⟩
  · cases about

/-- The frame of a route is taken as the route's protocol says. -/
theorem absorbs_of_dispatch (connected : mux.closed = false)
    (sinks : mux.state.inbound.isSome = true) (named : route ≠ 0)
    (about : signalOf route frame = some signal) :
    (mux.routeEnd route).Absorbs signal ((mux.dispatch frame).2.routeEnd route) := by
  unfold dispatch
  cases frame with
  | control | datagram => cases about
  | routeData other message =>
    obtain ⟨rfl,rfl⟩ := signalOf_named about
    rw [if_neg fun mismatch => named mismatch.2]
    exact absorbs_routeData connected other message
  | routeOpen other credit descriptor =>
    obtain ⟨rfl,rfl⟩ := signalOf_named about
    rw [if_neg fun mismatch => named mismatch.2]
    exact absorbs_routeOpen sinks other credit descriptor
  | routeAccept other credit accepted detail =>
    obtain ⟨rfl,rfl⟩ := signalOf_named about
    have fits : ¬((routeAccept other credit accepted detail).isRouteScoped = true ∧
        (routeAccept other credit accepted detail).route = 0) := fun mismatch =>
      named mismatch.2
    rw [if_neg fits]
    exact absorbs_routeAccept mux other credit accepted
  | routeClose other =>
    obtain ⟨rfl,rfl⟩ := signalOf_named about
    rw [if_neg fun mismatch => named mismatch.2]
    exact (absorbs_closing mux other).2
  | credit other delta =>
    obtain ⟨rfl,rfl⟩ := signalOf_named about
    rw [if_neg fun mismatch => named mismatch.2]
    exact absorbs_addCredit mux other delta

/-- Queued data stays outside the account. -/
theorem routeEnd_queueRouteFrame (mux : MuxShared) (served : RouteId) (message : Message)
    (nonzero : route ≠ 0) :
    (mux.queueRouteFrame served message).2.routeEnd route = mux.routeEnd route := by
  by_cases same : route = served
  · subst same
    rcases mux.queueRouteFrame_cases route message with same | ⟨entry,held,queued⟩
    · rw [same]
    · rw [queued,routeEnd_setEntry,routeEnd_of_entry held]
      rfl
  · exact (Touches.queueRouteFrame mux served message).routeEnd_eq nonzero same

end Astrs.Mux
