/-
The calls on one end, and where frames are filed.

Whatever is called, data frames stand only in the queue of their own route.
-/

import Astrs.Mux.Scheduler

namespace Astrs.Mux

open Astrs.Base OrderedMap

inductive SendCall where
  | openRoute (route : RouteId) (descriptor : Bytes)
  | queueControl (message : Message)
  | queueDatagram (message : Message)
  | queueRouteFrame (route : RouteId) (message : Message)
  | takeBatch (max : Nat)

/-- The frames a sending call hands to the writer, and the end afterwards. -/
def SendCall.perform (mux : MuxShared) : SendCall → List MuxFrame × MuxShared
  | openRoute route descriptor => ([],(mux.openRoute route descriptor).2)
  | queueControl message => ([],(mux.queueControlMetered message).2)
  | queueDatagram message => ([],(mux.queueDatagram message).2)
  | queueRouteFrame route message => ([],(mux.queueRouteFrame route message).2)
  | takeBatch max => ((mux.takeBatch max).1.map Outbound.frame,(mux.takeBatch max).2)

inductive Call where
  | send (call : SendCall)
  | receive (route : RouteId)
  | receiveControl
  | receiveDatagram
  | dispatch (frame : MuxFrame)
  | closeRoute (route : RouteId) (code : Nat) (detail : String)
  | grantCredit (route : RouteId) (delta : Nat)
  | close (reason : CloseReason)

def Call.perform (mux : MuxShared) : Call → MuxShared
  | send call => (call.perform mux).2
  | receive route => (mux.receive route).2
  | receiveControl => mux.receiveControl
  | receiveDatagram => mux.receiveDatagram
  | dispatch frame => (mux.dispatch frame).2
  | closeRoute route code detail => mux.closeRoute route code detail
  | grantCredit route delta => mux.grantCredit route delta
  | close reason => mux.close reason

/-! ### What the operations do to the tables -/

namespace MuxShared

variable (mux : MuxShared)

@[simp] theorem entry_setEntry (route other : RouteId) (entry : RouteEntry) :
    (mux.setEntry route entry).entry other = if route = other then some entry else mux.entry other :=
  get_insert _ _ _ _

@[simp] theorem entry_pushControl (item : Outbound) (route : RouteId) :
    (mux.pushControl item).entry route = mux.entry route := rfl

@[simp] theorem control_pushControl (item : Outbound) :
    (mux.pushControl item).state.control = mux.state.control ++ [item] := rfl

theorem insertRoute_cases (route : RouteId) (window : Nat) (confirmed : Bool) :
    (∃ fault, mux.insertRoute route window confirmed = .error fault) ∨
    (mux.entry route = none ∧ mux.insertRoute route window confirmed = .ok
          { mux with
            state :=
              { mux.state with
                routes := mux.state.routes.insert route (RouteEntry.fresh window confirmed)
                order := mux.state.order ++ [route] } }) := by
  unfold insertRoute
  by_cases there : (mux.entry route).isSome = true
  · exact .inl ⟨_,if_pos there⟩
  · rw [if_neg there]
    by_cases full : mux.maxRoutes ≤ mux.state.routes.len
    · exact .inl ⟨_,if_pos full⟩
    · exact .inr ⟨by simpa using there,if_neg full⟩

theorem insertRoute_error {route : RouteId} {window : Nat} {confirmed : Bool}
    {fault : TransportError} (refused : mux.insertRoute route window confirmed = .error fault) :
    fault = .duplicateRoute route ∨ fault = .routeLimitReached mux.maxRoutes := by
  unfold insertRoute at refused
  split at refused
  · exact .inl (Except.error.inj refused).symm
  · split at refused
    · exact .inr (Except.error.inj refused).symm
    · cases refused

section

variable {mux added : MuxShared} {route : RouteId} {window : Nat} {confirmed : Bool}
  (done : mux.insertRoute route window confirmed = .ok added)
include done

theorem insertRoute_ok : added =
      { mux with
        state :=
          { mux.state with
            routes := mux.state.routes.insert route (RouteEntry.fresh window confirmed)
            order := mux.state.order ++ [route] } } := by
  rcases mux.insertRoute_cases route window confirmed with ⟨fault,refused⟩ | ⟨_,stored⟩
  · rw [refused] at done
    cases done
  · rw [stored,Except.ok.injEq] at done
    exact done.symm

theorem entry_insertRoute (other : RouteId) : added.entry other =
      if route = other then some (RouteEntry.fresh window confirmed) else mux.entry other := by
  rw [insertRoute_ok done]
  exact get_insert _ _ _ _

end

variable (route : RouteId)

/-- Opening a route either leaves the end as it was, or creates the entry without
announcing it, or creates and announces it. -/
theorem openRoute_cases (descriptor : Bytes) :
    (∃ fault, mux.openRoute route descriptor = (.error fault,mux)) ∨
    (∃ added, mux.entry route = none ∧
      mux.insertRoute route mux.config.initialWindowFrames true = .ok added ∧
      ((∃ fault, mux.openRoute route descriptor = (.error fault,added)) ∨
        mux.openRoute route descriptor = (.ok (),added.pushControl
            (Outbound.control (.routeOpen route mux.config.initialWindowFrames descriptor))))) := by
  unfold openRoute
  dsimp only
  cases mux.ensureOpen with
  | error fault => exact .inl ⟨fault,rfl⟩
  | ok _ =>
    rcases mux.insertRoute_cases route mux.config.initialWindowFrames true with
      ⟨fault,refused⟩ | ⟨absent,added⟩
    · rw [refused]
      exact .inl ⟨fault,rfl⟩
    · rw [added]
      refine .inr ⟨_,absent,rfl,?_⟩
      dsimp only
      split
      · exact .inl ⟨_,rfl⟩
      · exact .inr rfl

/-- A refused opening changes nothing, unless the announcement is too long for the connection
or for a frame: that is found out when the route is in the table. -/
theorem openRoute_atomic_iff (descriptor : Bytes) :
    (∀ fault, (mux.openRoute route descriptor).1 = .error fault →
        (mux.openRoute route descriptor).2.state = mux.state) ↔
      mux.closed = true ∨ (mux.entry route).isSome = true ∨
        mux.maxRoutes ≤ mux.state.routes.len ∨
        (MuxFrame.routeOpen route mux.config.initialWindowFrames descriptor).payloadLen ≤
          min mux.maxPayload u32Max := by
  unfold openRoute ensureOpen insertRoute checkedFrame checkPayload newFrame
  dsimp only
  cases closed : mux.closed with
  | true => cases mux.closeReason <;> simp
  | false =>
    by_cases there : (mux.entry route).isSome = true
    · simp [there]
    · by_cases full : mux.maxRoutes ≤ mux.state.routes.len
      · simp [there,full]
      · generalize (MuxFrame.routeOpen route mux.config.initialWindowFrames
          descriptor).payloadLen = len
        -- the order has grown by the route
        have grown : ∀ state : MuxState, state.order = mux.state.order ++ [route] →
            state ≠ mux.state := fun state longer same => by simp [same] at longer
        by_cases long : mux.maxPayload < len
        · simp [there,full,long,grown,bind,Except.bind,not_le.mpr long]
        · by_cases wide : u32Max < len
          · simp [there,full,long,wide,grown,bind,Except.bind,not_le.mpr wide]
          · simp [there,full,long,wide,bind,Except.bind,not_lt.mp long,not_lt.mp wide]

theorem openRoute_limit_atomic :
    ((new MuxConfig.new .initiator 16 0).openRoute 1 []).1 = .error (.routeLimitReached 0) ∧
      ((new MuxConfig.new .initiator 16 0).openRoute 1 []).2.state =
        (new MuxConfig.new .initiator 16 0).state :=
  ⟨rfl,(openRoute_atomic_iff _ _ _).mpr (.inr (.inr (.inl (by decide)))) _ rfl⟩

/-- The route of a refused opening stays in the table and cannot be opened again. -/
theorem openRoute_long_descriptor :
    ((new MuxConfig.new .initiator 16 4).openRoute 1 [1,2,3,4]).1 = .error (.frameTooLarge 17 16) ∧
      ((new MuxConfig.new .initiator 16 4).openRoute 1 [1,2,3,4]).2.state.order = [1] ∧
      (((new MuxConfig.new .initiator 16 4).openRoute 1 [1,2,3,4]).2.openRoute 1 []).1 =
        .error (.duplicateRoute 1) := ⟨rfl,rfl,rfl⟩

theorem queueControlMetered_cases (message : Message) : (mux.queueControlMetered message).2 = mux ∨
    (mux.queueControlMetered message).2 =
      mux.pushControl (Outbound.control (.control message)) := by
  unfold queueControlMetered
  dsimp only
  split
  · exact .inl rfl
  · split
    · exact .inl rfl
    · exact .inr rfl

theorem queueDatagram_cases (message : Message) : (mux.queueDatagram message).2 = mux ∨
    (∃ kept, kept <:+ mux.state.datagrams ∧ (mux.queueDatagram message).2 =
        { mux with
          state :=
            { mux.state with
              datagrams := kept ++ [Outbound.control (.datagram message)] } }) := by
  unfold queueDatagram
  dsimp only
  split
  · exact .inl rfl
  · split
    · exact .inl rfl
    · split
      · exact .inl rfl
      · refine .inr ⟨_,?_,rfl⟩
        split
        · exact List.drop_suffix 1 _
        · exact List.suffix_refl _

theorem queueRouteFrame_cases (message : Message) : (mux.queueRouteFrame route message).2 = mux ∨
    (∃ entry, mux.entry route = some entry ∧ (mux.queueRouteFrame route message).2 =
        mux.setEntry route
          { entry with queue := entry.queue ++ [⟨.routeData route message,route,true⟩] }) := by
  unfold queueRouteFrame
  dsimp only
  split
  · exact .inl rfl
  · split
    · exact .inl rfl
    · cases held : mux.entry route with
      | none => exact .inl rfl
      | some entry => exact .inr ⟨entry,rfl,rfl⟩

theorem grantCredit_cases (delta : Nat) : mux.grantCredit route delta = mux ∨
    mux.grantCredit route delta = mux.pushControl (Outbound.control (.credit route delta)) := by
  unfold grantCredit
  split
  · exact .inl rfl
  · exact .inr rfl

theorem receive_cases : mux.receive route = (none,mux) ∨
    (∃ entry message rest, mux.entry route = some entry ∧ entry.inbound = message :: rest ∧
      mux.receive route =
        (some message,(mux.setEntry route { entry with inbound := rest }).noteConsumed route)) := by
  unfold receive
  cases held : mux.entry route with
  | none => exact .inl rfl
  | some entry =>
    dsimp only
    cases buffered : entry.inbound with
    | nil => exact .inl rfl
    | cons message rest => exact .inr ⟨entry,message,rest,rfl,buffered,rfl⟩

/-- A consumed frame is noted below the grant threshold and given back at it. -/
theorem noteConsumed_cases {route : RouteId} {entry : RouteEntry}
    (held : mux.entry route = some entry) :
    (saturatingAdd entry.consumedSinceGrant 1 < max entry.window 1 ∧ mux.noteConsumed route =
        mux.setEntry route
          { entry with consumedSinceGrant := saturatingAdd entry.consumedSinceGrant 1 }) ∨
    mux.noteConsumed route =
      (mux.setEntry route { entry with consumedSinceGrant := 0 }).grantCredit route
        (saturatingAdd entry.consumedSinceGrant 1) := by
  unfold noteConsumed
  rw [held]
  dsimp only
  split
  · rename_i below
    exact .inl ⟨lt_of_lt_of_le below (min_le_right _ _),rfl⟩
  · exact .inr rfl

theorem closeRouteLocally_cases : (mux.entry route = none ∧ mux.closeRouteLocally route = mux) ∨
    mux.closeRouteLocally route =
      { mux with
        state :=
          { mux.state with
            routes := mux.state.routes.remove route
            order := mux.state.order.filter (fun other => decide (other ≠ route)) } } := by
  unfold closeRouteLocally
  cases held : mux.entry route with
  | none => exact .inl ⟨rfl,rfl⟩
  | some => exact .inr rfl

@[simp] theorem entry_closeRouteLocally (route other : RouteId) :
    (mux.closeRouteLocally route).entry other = if route = other then none else mux.entry other := by
  rcases mux.closeRouteLocally_cases route with ⟨absent,same⟩ | removed
  · rw [same]
    by_cases equal : route = other
    · rw [if_pos equal,← equal,absent]
    · rw [if_neg equal]
  · rw [removed]
    exact get_remove _ _ _

@[simp] theorem control_closeRouteLocally :
    (mux.closeRouteLocally route).state.control = mux.state.control := by
  rcases mux.closeRouteLocally_cases route with ⟨_,same⟩ | removed
  · rw [same]
  · rw [removed]

end MuxShared

/-! ### What every operation keeps -/

/-- Every frame a route's queue holds is data of that route, and costs credit. -/
def RouteEntry.Filed (entry : RouteEntry) (route : RouteId) : Prop :=
  ∀ item ∈ entry.queue, ∃ message, item = ⟨.routeData route message,route,true⟩

structure MuxState.Filed (state : MuxState) : Prop where
  control : ∀ item ∈ state.control, item.frame.isData = false
  datagrams : ∀ item ∈ state.datagrams, ∃ message, item.frame = .datagram message
  queues : ∀ route entry, state.routes.get route = some entry → entry.Filed route

/-- The end's side and policy, and whether the connection is up. -/
def MuxShared.setup (mux : MuxShared) : Side × MuxConfig × Bool × Bool :=
  (mux.side,mux.config,mux.closed,mux.state.inbound.isSome)

/-- What any operation but closing the connection leaves standing. -/
structure MuxShared.Keeps (mux next : MuxShared) : Prop where
  setup : next.setup = mux.setup
  filed : mux.state.Filed → next.state.Filed

/-- An operation on one route leaves the entries of the others alone, and the control frames it
queues are of that route. -/
structure MuxShared.Touches (named : RouteId) (mux next : MuxShared) : Prop extends
    mux.Keeps next where
  entry : ∀ other ≠ named, next.entry other = mux.entry other
  control : ∃ items, next.state.control = mux.state.control ++ items ∧
    ∀ item ∈ items, item.frame.route = named

namespace MuxShared.Touches

variable {mux next last : MuxShared} {route : RouteId}

@[refl] theorem refl (mux : MuxShared) : mux.Touches route mux :=
  ⟨⟨rfl,id⟩,fun _ _ => rfl,[],(List.append_nil _).symm,nofun⟩

theorem trans (first : mux.Touches route next) (second : next.Touches route last) :
    mux.Touches route last := by
  obtain ⟨front,queued,named⟩ := first.control
  obtain ⟨back,added,namedLater⟩ := second.control
  refine ⟨⟨second.setup.trans first.setup,second.filed ∘ first.filed⟩,fun other differs =>
    (second.entry other differs).trans (first.entry other differs),front ++ back,?_,
    List.forall_mem_append.mpr ⟨named,namedLater⟩⟩
  rw [added,queued,List.append_assoc]

theorem pushControl {frame : MuxFrame} (plain : frame.isData = false) (about : frame.route = route) :
    mux.Touches route (mux.pushControl (Outbound.control frame)) := by
  refine ⟨⟨rfl,fun filed => ⟨?_,filed.datagrams,filed.queues⟩⟩,fun _ _ => rfl,
    [Outbound.control frame],rfl,List.forall_mem_singleton.mpr about⟩
  exact List.forall_mem_append.mpr ⟨filed.control,List.forall_mem_singleton.mpr plain⟩

theorem setEntry {entry : RouteEntry} (own : mux.state.Filed → entry.Filed route) :
    mux.Touches route (mux.setEntry route entry) := by
  refine ⟨⟨rfl,fun filed => ⟨filed.control,filed.datagrams,?_⟩⟩,fun other differs =>
    (mux.entry_setEntry route other entry).trans (if_neg differs.symm),[],
    (List.append_nil _).symm,nofun⟩
  intro other held lookup
  rcases insert_some _ lookup with ⟨rfl,rfl⟩ | ⟨_,found⟩
  · exact own filed
  · exact filed.queues other held found

/-- An entry may change in anything but its queue. -/
theorem requeued {entry changed : RouteEntry}
    (held : mux.entry route = some entry) (same : changed.queue = entry.queue) :
    mux.Touches route (mux.setEntry route changed) := by
  apply setEntry
  intro filed item mem
  exact filed.queues route entry held item (same ▸ mem)

theorem sinks {sinks changed : InboundSinks} (connected : mux.state.inbound = some sinks) :
    mux.Touches route { mux with state := { mux.state with inbound := some changed } } := by
  refine ⟨⟨?_,fun filed => { filed with }⟩,fun _ _ => rfl,[],(List.append_nil _).symm,nofun⟩
  unfold MuxShared.setup
  rw [connected]
  rfl

theorem insertRoute {window : Nat} {confirmed : Bool}
    (done : mux.insertRoute route window confirmed = .ok next) : mux.Touches route next := by
  have fresh : (RouteEntry.fresh window confirmed).Filed route := by
    intro _ mem
    cases mem
  have entered := @setEntry mux route _ fun _ => fresh
  rw [insertRoute_ok done]
  exact { entered with filed := fun filed => { entered.filed filed with } }

variable (mux) (route)

theorem closeRouteLocally : mux.Touches route (mux.closeRouteLocally route) := by
  rcases mux.closeRouteLocally_cases route with ⟨_,same⟩ | removed
  · rw [same]
  · rw [removed]
    refine ⟨⟨rfl,fun filed => ⟨filed.control,filed.datagrams,?_⟩⟩,fun other differs =>
      (get_remove _ _ _).trans (if_neg differs.symm),[],(List.append_nil _).symm,nofun⟩
    intro other held lookup
    have found := (get_remove mux.state.routes route other).symm.trans lookup
    by_cases same : route = other
    · rw [if_pos same] at found
      cases found
    · rw [if_neg same] at found
      exact filed.queues other held found

theorem closeRoute (code : Nat) (detail : String) : mux.Touches route (mux.closeRoute route code detail) := by
  unfold MuxShared.closeRoute
  split
  · split
    · exact closeRouteLocally mux route
    · exact (closeRouteLocally mux route).trans (pushControl rfl rfl)
  · rfl

theorem grantCredit (delta : Nat) : mux.Touches route (mux.grantCredit route delta) := by
  rcases mux.grantCredit_cases route delta with same | pushed
  · rw [same]
  · rw [pushed]
    exact pushControl rfl rfl

theorem noteConsumed : mux.Touches route (mux.noteConsumed route) := by
  cases held : mux.entry route with
  | none =>
    unfold MuxShared.noteConsumed
    rw [held]
  | some entry =>
    rcases mux.noteConsumed_cases held with ⟨_,noted⟩ | granted
    · rw [noted]
      exact requeued held rfl
    · rw [granted]
      refine (requeued held ?_).trans (grantCredit _ route _)
      rfl

theorem receive : mux.Touches route (mux.receive route).2 := by
  rcases mux.receive_cases route with none | ⟨entry,message,rest,held,_,received⟩
  · rw [none]
  · rw [received]
    refine (requeued held ?_).trans (noteConsumed _ route)
    rfl

theorem receiveControl : mux.Touches 0 mux.receiveControl :=
  ⟨⟨by simp [MuxShared.setup,MuxShared.receiveControl],fun filed => { filed with }⟩,fun _ _ => rfl,
    [],(List.append_nil _).symm,nofun⟩

theorem receiveDatagram : mux.Touches 0 mux.receiveDatagram :=
  ⟨⟨by simp [MuxShared.setup,MuxShared.receiveDatagram],fun filed => { filed with }⟩,fun _ _ => rfl,
    [],(List.append_nil _).symm,nofun⟩

theorem openRoute (descriptor : Bytes) : mux.Touches route (mux.openRoute route descriptor).2 := by
  rcases mux.openRoute_cases route descriptor with
    ⟨fault,same⟩ | ⟨added,_,done,⟨fault,unsent⟩ | sent⟩
  · rw [same]
  · rw [unsent]
    exact insertRoute done
  · rw [sent]
    exact (insertRoute done).trans (pushControl rfl rfl)

variable (message : Message)

theorem queueRouteFrame : mux.Touches route (mux.queueRouteFrame route message).2 := by
  rcases mux.queueRouteFrame_cases route message with same | ⟨entry,held,queued⟩
  · rw [same]
  · rw [queued]
    apply setEntry
    intro filed item mem
    rcases List.mem_append.mp mem with earlier | last
    · exact filed.queues route entry held item earlier
    · exact ⟨message,List.mem_singleton.mp last⟩

theorem queueDatagram : mux.Touches 0 (mux.queueDatagram message).2 := by
  rcases mux.queueDatagram_cases message with same | ⟨kept,suffix,queued⟩
  · rw [same]
  · rw [queued]
    refine ⟨⟨rfl,fun filed => ⟨filed.control,?_,filed.queues⟩⟩,fun _ _ => rfl,[],
      (List.append_nil _).symm,nofun⟩
    exact List.forall_mem_append.mpr ⟨fun item earlier => filed.datagrams item (suffix.subset earlier),
      fun _ last => ⟨message,by rw [List.mem_singleton.mp last]; rfl⟩⟩

theorem queueControl : mux.Touches 0 (mux.queueControlMetered message).2 := by
  rcases mux.queueControlMetered_cases message with same | pushed
  · rw [same]
  · rw [pushed]
    exact pushControl rfl rfl

theorem rejectRoute (code : Nat) (detail : String) :
    mux.Touches route (mux.rejectRoute route code detail) := by
  have answered : mux.Touches route (mux.answerOpen route 0 false detail) := pushControl rfl rfl
  exact answered.trans (pushControl rfl rfl)

theorem dispatchRouteOpen (credit : Nat) (descriptor : Bytes) :
    mux.Touches route (mux.dispatchRouteOpen route credit descriptor).2 := by
  unfold MuxShared.dispatchRouteOpen
  dsimp only
  split
  · exact rejectRoute mux _ _ _
  · split
    · rename_i added done
      split
      · exact insertRoute done
      · rename_i connected
        exact ((insertRoute done).trans (sinks connected)).trans (pushControl rfl rfl)
    · exact rejectRoute mux _ _ _
    · exact rejectRoute mux _ _ _
    · rfl

theorem dispatchRouteAccept (credit : Nat) (accepted : Bool) :
    mux.Touches route (mux.dispatchRouteAccept route credit accepted).2 := by
  unfold MuxShared.dispatchRouteAccept
  split
  · cases held : mux.entry route with
    | none => rfl
    | some entry => exact requeued held rfl
  · exact closeRouteLocally mux route

theorem dispatchRouteData : mux.Touches route (mux.dispatchRouteData route message).2 := by
  unfold MuxShared.dispatchRouteData
  cases held : mux.entry route with
  | none => rfl
  | some entry =>
    dsimp only
    split
    · exact requeued held rfl
    · exact closeRoute mux _ _ _

theorem addCredit (delta : Nat) : mux.Touches route (mux.addCredit route delta) := by
  unfold MuxShared.addCredit
  cases held : mux.entry route with
  | none => rfl
  | some entry => exact requeued held rfl

theorem dispatch (frame : MuxFrame) : mux.Touches frame.route (mux.dispatch frame).2 := by
  unfold MuxShared.dispatch
  split
  · rfl
  · cases frame with
    | control | datagram =>
      dsimp only [MuxShared.dispatchControl,MuxShared.dispatchDatagram]
      split
      · rfl
      · rename_i connected
        split
        · rfl
        · exact sinks connected
    | routeData route message => exact dispatchRouteData mux route message
    | routeOpen route credit descriptor => exact dispatchRouteOpen mux route credit descriptor
    | routeAccept route credit accepted => exact dispatchRouteAccept mux route credit accepted
    | routeClose route => exact closeRouteLocally mux route
    | credit route delta => exact addCredit mux route delta

end MuxShared.Touches

namespace MuxState.Filed

variable {mux : MuxShared}

theorem pops {controlBurst : Nat} {state next : MuxState} {item : Outbound}
    (filed : state.Filed) (popped : state.Pops controlBurst item next) : next.Filed := by
  cases popped with
  | control order queued =>
    refine { filed with control := ?_ }
    intro other mem
    exact filed.control other (queued ▸ List.mem_cons_of_mem item mem)
  | datagram order idle queued =>
    refine { filed with datagrams := ?_ }
    intro other mem
    exact filed.datagrams other (queued ▸ List.mem_cons_of_mem item mem)
  | @route route entry _ rest order yielded held queued ready =>
    refine { filed with queues := ?_ }
    intro other found lookup
    rcases insert_some _ lookup with ⟨rfl,rfl⟩ | ⟨_,kept⟩
    · intro waiting mem
      exact filed.queues route entry held waiting (queued ▸ List.mem_cons_of_mem item mem)
    · exact filed.queues other found kept

theorem turned {state : MuxState} (filed : state.Filed) (order : List RouteId) :
    MuxState.Filed { state with order := order } :=
  { filed with }

end MuxState.Filed

namespace MuxShared.Keeps

theorem takeBatch (mux : MuxShared) (max : Nat) : mux.Keeps (mux.takeBatch max).2 := by
  have kept : (mux.takeBatch max).2.state.inbound = mux.state.inbound ∧
      (mux.state.Filed → (mux.takeBatch max).2.state.Filed) := by
    refine MuxState.takeWithin_induct (motive := fun _ state =>
      state.inbound = mux.state.inbound ∧ (mux.state.Filed → state.Filed))
      (fun _ _ order kept => ⟨kept.1,fun filed => (kept.2 filed).turned order⟩) ?_ max []
      mux.state ⟨rfl,id⟩
    intro _ _ _ _ popped kept
    refine ⟨?_,fun filed => (kept.2 filed).pops popped⟩
    cases popped with
    | control | datagram | route => exact kept.1
  refine ⟨?_,kept.2⟩
  unfold MuxShared.setup
  rw [kept.1]
  rfl

theorem send (mux : MuxShared) (call : SendCall) : mux.Keeps (call.perform mux).2 := by
  cases call with
  | openRoute route descriptor => exact (Touches.openRoute mux route descriptor).toKeeps
  | queueControl message => exact (Touches.queueControl mux message).toKeeps
  | queueDatagram message => exact (Touches.queueDatagram mux message).toKeeps
  | queueRouteFrame route message => exact (Touches.queueRouteFrame mux route message).toKeeps
  | takeBatch max => exact takeBatch mux max

end MuxShared.Keeps

theorem MuxShared.config_send (mux : MuxShared) (call : SendCall) :
    (call.perform mux).2.config = mux.config :=
  congrArg (fun setup => setup.2.1) (Keeps.send mux call).setup

namespace MuxState.Filed

variable {mux : MuxShared}

theorem close (filed : mux.state.Filed) (reason : CloseReason) :
    (mux.close reason).state.Filed := by
  unfold MuxShared.close
  split
  · exact filed
  · exact ⟨nofun,nofun,nofun⟩

theorem perform (filed : mux.state.Filed) (call : Call) : (call.perform mux).state.Filed := by
  cases call with
  | send call => exact (MuxShared.Keeps.send mux call).filed filed
  | receive route => exact (MuxShared.Touches.receive mux route).filed filed
  | receiveControl => exact (MuxShared.Touches.receiveControl mux).filed filed
  | receiveDatagram => exact (MuxShared.Touches.receiveDatagram mux).filed filed
  | dispatch frame => exact (MuxShared.Touches.dispatch mux frame).filed filed
  | closeRoute route code detail =>
    exact (MuxShared.Touches.closeRoute mux route code detail).filed filed
  | grantCredit route delta => exact (MuxShared.Touches.grantCredit mux route delta).filed filed
  | close reason => exact filed.close reason

theorem new (config : MuxConfig) (side : Side) (maxPayload maxRoutes : Nat) :
    (MuxShared.new config side maxPayload maxRoutes).state.Filed :=
  ⟨nofun,nofun,nofun⟩

theorem performAll (filed : mux.state.Filed) (calls : List Call) :
    (calls.foldl Call.perform mux).state.Filed := by
  induction calls generalizing mux with
  | nil => exact filed
  | cons call _ ih => exact ih (filed.perform call)

end MuxState.Filed

end Astrs.Mux
