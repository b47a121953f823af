/-
The route multiplexer of one connection.

The scheduler serves control frames in bounded bursts and the routes in round robin; a
route frame costs one unit of the route's credit.  Frames are modelled after they have been
parsed.  Counters, send-queue permits and the compression of bodies are left out.
-/

import Astrs.Base.Ordered
import Astrs.Base.Bytes

namespace Astrs.Mux

open Astrs.Base

abbrev RouteId := Nat

abbrev Bytes := List UInt8

def u32Max : Nat := 4294967295

def saturatingAdd (left right : Nat) : Nat := min (left + right) u32Max

inductive Side where
  | initiator
  | acceptor
  deriving DecidableEq, Repr

namespace Side

def peer : Side → Side
  | initiator => acceptor
  | acceptor => initiator

/-- Handles are split by parity; handle zero names no route. -/
def ownsRoute (side : Side) (route : RouteId) : Bool :=
  if route = 0 then false
  else
    match side with
    | initiator => route % 2 == 1
    | acceptor => !(route % 2 == 1)

end Side

structure MuxConfig where
  enabled : Bool
  initialWindowFrames : Nat
  routeQueueDepth : Nat
  controlQueueDepth : Nat
  datagramQueueDepth : Nat
  controlBurst : Nat
  creditGrantPercent : Nat
  window_le : initialWindowFrames ≤ u32Max
  deriving DecidableEq

namespace MuxConfig

def new : MuxConfig :=
  { enabled := true
    initialWindowFrames := 32
    routeQueueDepth := 32
    controlQueueDepth := 256
    datagramQueueDepth := 64
    controlBurst := 8
    creditGrantPercent := 50
    window_le := by decide }

/-- Frames to consume before credit is granted back; the scaled value is cut to
32 bits, which only a percentage above one hundred can reach. -/
def creditGrantThreshold (config : MuxConfig) : Nat :=
  let scaled := config.initialWindowFrames * config.creditGrantPercent / 100
  if scaled = 0 then 1 else scaled % 4294967296

/-- A disabled multiplexer passes with any values. -/
def validate (config : MuxConfig) : Except String Unit :=
  if config.enabled then
    if config.initialWindowFrames = 0 then
      .error "mux.initial_window_frames must be at least 1"
    else if config.routeQueueDepth = 0 then
      .error "mux.route_queue_depth must be at least 1"
    else if config.controlQueueDepth = 0 then
      .error "mux.control_queue_depth must be at least 1"
    else if config.controlBurst = 0 then
      .error "mux.control_burst must be at least 1"
    else if config.creditGrantPercent = 0 ∨ 100 < config.creditGrantPercent then
      .error "mux.credit_grant_percent must be in 1..=100"
    else .ok ()
  else .ok ()

end MuxConfig

inductive FrameKind where
  | control
  | controlReply
  | coordinatorEvent
  | daemonEvent
  | nodeRequest
  | nodeEvent
  | peerEvent
  | data
  | log
  | telemetry
  deriving DecidableEq, Repr

/-- What the application hands over or receives: a kind and a body. -/
structure Message where
  kind : FrameKind
  body : Bytes
  deriving DecidableEq

inductive MuxFrame where
  | control (message : Message)
  | routeData (route : RouteId) (message : Message)
  | routeOpen (route : RouteId) (credit : Nat) (descriptor : Bytes)
  | routeAccept (route : RouteId) (credit : Nat) (accepted : Bool) (detail : String)
  | routeClose (route : RouteId) (code : Nat) (detail : String)
  | credit (route : RouteId) (delta : Nat)
  | datagram (message : Message)
  deriving DecidableEq

namespace MuxFrame

def headerLen : Nat := 9

def payloadLen : MuxFrame → Nat
  | control message => headerLen + message.body.length
  | routeData _ message => headerLen + message.body.length
  | routeOpen _ _ descriptor => headerLen + 4 + descriptor.length
  | routeAccept _ _ _ detail => headerLen + 5 + detail.utf8ByteSize
  | routeClose _ _ detail => headerLen + 2 + detail.utf8ByteSize
  | credit _ _ => headerLen + 4
  | datagram message => headerLen + message.body.length

/-- The handle in the header; handle zero on the two tags without a route. -/
def route : MuxFrame → RouteId
  | control _ => 0
  | routeData route _ => route
  | routeOpen route _ _ => route
  | routeAccept route _ _ _ => route
  | routeClose route _ _ => route
  | credit route _ => route
  | datagram _ => 0

def isRouteScoped : MuxFrame → Bool
  | control _ => false
  | datagram _ => false
  | _ => true

def isData : MuxFrame → Bool
  | routeData _ _ => true
  | _ => false

def opens (route : RouteId) : MuxFrame → Bool
  | routeOpen opened _ _ => opened == route
  | _ => false

def carries (route : RouteId) : MuxFrame → Bool
  | routeData carried _ => carried == route
  | _ => false

end MuxFrame

def closeCodeFlowControl : Nat := 2

def closeCodeRouteLimit : Nat := 3

def closeCodeDuplicate : Nat := 4

inductive CloseReason where
  | localEnd (detail : String)
  | peer (detail : String)
  | eof
  | protocol (detail : String)
  | transport (detail : String)
  | keepaliveTimeout
  | dropped
  deriving DecidableEq

inductive TransportError where
  | closed (reason : CloseReason)
  | notConnected
  | routeMismatch (route : RouteId)
  | duplicateRoute (route : RouteId)
  | routeLimitReached (limit : Nat)
  | unknownRoute (route : RouteId)
  | frameTooLarge (actual limit : Nat)
  | wire (len limit : Nat)
  | datagramTooLarge (actual limit : Nat)
  | flowControlViolation (route : RouteId) (window : Nat)
  | sendQueueFull (route : RouteId) (capacity : Nat)
  | reconnectBufferOverflow (dropped capacity : Nat)
  deriving DecidableEq

/-! ### The scheduler -/

structure Outbound where
  frame : MuxFrame
  route : RouteId
  consumesCredit : Bool
  deriving DecidableEq

def Outbound.control (frame : MuxFrame) : Outbound :=
  { frame := frame, route := 0, consumesCredit := false }

/-- One route's send queue, window and inbound channel.  The channel is held with
the entry that feeds it: once the entry is gone, draining it changes nothing. -/
structure RouteEntry where
  queue : List Outbound
  credit : Nat
  window : Nat
  consumedSinceGrant : Nat
  capacity : Nat
  inbound : List Message
  confirmed : Bool
  deriving DecidableEq

def RouteEntry.isReady (entry : RouteEntry) : Bool :=
  match entry.queue.head? with
  | some front => !front.consumesCredit || decide (0 < entry.credit)
  | none => false

/-- A new route starts with the whole window as credit and a channel that holds
exactly the window. -/
def RouteEntry.fresh (window : Nat) (confirmed : Bool) : RouteEntry :=
  { queue := []
    credit := window
    window := window
    consumedSinceGrant := 0
    capacity := max window 1
    inbound := []
    confirmed := confirmed }

structure InboundRoute where
  route : RouteId
  descriptor : Bytes
  deriving DecidableEq

/-- What the demultiplexer has delivered and the application has not yet taken. -/
structure InboundSinks where
  control : List Message
  datagrams : List Message
  accepts : List InboundRoute
  deriving DecidableEq

structure MuxState where
  control : List Outbound
  datagrams : List Outbound
  routes : OrderedMap RouteId RouteEntry
  order : List RouteId
  controlRun : Nat
  inbound : Option InboundSinks

namespace MuxState

def popUnmetered (state : MuxState) : Option (Outbound × MuxState) :=
  match state.control with
  | item :: rest => some (item,{ state with control := rest })
  | [] =>
    match state.datagrams with
    | item :: rest => some (item,{ state with datagrams := rest })
    | [] => none

/-- The loop of the round robin: the cursor moves on by one route a turn. -/
def popRouteWithin : Nat → MuxState → Option Outbound × MuxState
  | 0,state => (none,state)
  | turns + 1,state =>
    match state.order with
    | [] => (none,state)
    | route :: later =>
      let turned := { state with order := later ++ [route] }
      match turned.routes.get route with
      | none => popRouteWithin turns turned
      | some entry =>
        if entry.isReady then
          match entry.queue with
          | [] => (none,turned)
          | item :: rest =>
            (some item,
              { turned with
                routes := turned.routes.insert route
                  { entry with
                    queue := rest
                    credit :=
                      if item.consumesCredit then entry.credit - 1 else entry.credit } })
        else popRouteWithin turns turned

def popRoute (state : MuxState) : Option Outbound × MuxState :=
  popRouteWithin state.order.length state

def popNext (controlBurst : Nat) (state : MuxState) : Option Outbound × MuxState :=
  match (if state.controlRun < controlBurst then state.popUnmetered else none) with
  | some (item,popped) =>
    (some item,{ popped with controlRun := saturatingAdd popped.controlRun 1 })
  | none =>
    match state.popRoute with
    | (some item,popped) => (some item,{ popped with controlRun := 0 })
    | (none,turned) =>
      match turned.popUnmetered with
      | some (item,popped) =>
        (some item,{ popped with controlRun := saturatingAdd popped.controlRun 1 })
      | none => (none,turned)

/-- The loop of one batch: at most `room` frames, until nothing is ready. -/
def takeWithin (controlBurst : Nat) : Nat → MuxState → List Outbound × MuxState
  | 0,state => ([],state)
  | room + 1,state =>
    match state.popNext controlBurst with
    | (some item,popped) =>
      let taken := takeWithin controlBurst room popped
      (item :: taken.1,taken.2)
    | (none,turned) => ([],turned)

end MuxState

structure MuxShared where
  config : MuxConfig
  side : Side
  maxPayload : Nat
  maxDatagram : Nat
  maxRoutes : Nat
  closed : Bool
  closeReason : Option CloseReason
  state : MuxState

namespace MuxShared

def new (config : MuxConfig) (side : Side) (maxPayload maxRoutes : Nat) : MuxShared :=
  { config := config
    side := side
    maxPayload := maxPayload
    maxDatagram := 0
    maxRoutes := maxRoutes
    closed := false
    closeReason := none
    state :=
      { control := []
        datagrams := []
        routes := OrderedMap.empty
        order := []
        controlRun := 0
        inbound := some { control := [], datagrams := [], accepts := [] } } }

variable (mux : MuxShared) (route : RouteId)

def entry : Option RouteEntry := mux.state.routes.get route

def setEntry (entry : RouteEntry) : MuxShared :=
  { mux with state := { mux.state with routes := mux.state.routes.insert route entry } }

def ensureOpen : Except TransportError Unit :=
  if mux.closed then
    match mux.closeReason with
    | some reason => .error (.closed reason)
    | none => .error .notConnected
  else .ok ()

def checkPayload (len : Nat) : Except TransportError Unit :=
  if mux.maxPayload < len then .error (.frameTooLarge len mux.maxPayload) else .ok ()

/-- A frame's header counts its payload in 32 bits. -/
def newFrame (len : Nat) : Except TransportError Unit :=
  if u32Max < len then .error (.wire len u32Max) else .ok ()

def checkedFrame (len : Nat) : Except TransportError Unit := do
  mux.checkPayload len
  newFrame len

def takeBatch (max : Nat) : List Outbound × MuxShared :=
  let taken := mux.state.takeWithin mux.config.controlBurst max
  (taken.1,{ mux with state := taken.2 })

def pushControl (item : Outbound) : MuxShared :=
  { mux with state := { mux.state with control := mux.state.control ++ [item] } }

def queueControlMetered (message : Message) : Except TransportError Unit × MuxShared :=
  let frame := MuxFrame.control message
  match mux.ensureOpen with
  | .error failure => (.error failure,mux)
  | .ok () =>
    match mux.checkedFrame frame.payloadLen with
    | .error failure => (.error failure,mux)
    | .ok () => (.ok (),mux.pushControl (Outbound.control frame))

def maxDatagramBytes : Nat :=
  if mux.maxDatagram = 0 then mux.maxPayload else min mux.maxDatagram mux.maxPayload

def queueDatagram (message : Message) : Except TransportError Unit × MuxShared :=
  let frame := MuxFrame.datagram message
  match mux.ensureOpen with
  | .error failure => (.error failure,mux)
  | .ok () =>
    if mux.maxDatagramBytes < frame.payloadLen then
      (.error (.datagramTooLarge frame.payloadLen mux.maxDatagramBytes),mux)
    else
      match newFrame frame.payloadLen with
      | .error failure => (.error failure,mux)
      | .ok () =>
        let depth := max mux.config.datagramQueueDepth 1
        let kept :=
          if depth ≤ mux.state.datagrams.length then mux.state.datagrams.drop 1
          else mux.state.datagrams
        (.ok (),
          { mux with
            state := { mux.state with datagrams := kept ++ [Outbound.control frame] } })

def queueRouteFrame (message : Message) : Except TransportError Unit × MuxShared :=
  let frame := MuxFrame.routeData route message
  match mux.ensureOpen with
  | .error failure => (.error failure,mux)
  | .ok () =>
    match mux.checkPayload frame.payloadLen with
    | .error failure => (.error failure,mux)
    | .ok () =>
      match mux.entry route with
      | none => (.error (.unknownRoute route),mux)
      | some entry =>
        let item : Outbound := { frame := frame, route := route, consumesCredit := true }
        (.ok (),mux.setEntry route { entry with queue := entry.queue ++ [item] })

def insertRoute (window : Nat) (confirmed : Bool) : Except TransportError MuxShared :=
  if (mux.entry route).isSome then .error (.duplicateRoute route)
  else if mux.maxRoutes ≤ mux.state.routes.len then .error (.routeLimitReached mux.maxRoutes)
  else
    .ok
      { mux with
        state :=
          { mux.state with
            routes := mux.state.routes.insert route (RouteEntry.fresh window confirmed)
            order := mux.state.order ++ [route] } }

/-- The entry is created before the announcement is checked for size: an oversized
descriptor fails with the route already in the table. -/
def openRoute (descriptor : Bytes) : Except TransportError Unit × MuxShared :=
  let window := mux.config.initialWindowFrames
  let frame := MuxFrame.routeOpen route window descriptor
  match mux.ensureOpen with
  | .error failure => (.error failure,mux)
  | .ok () =>
    match mux.insertRoute route window true with
    | .error failure => (.error failure,mux)
    | .ok inserted =>
      match inserted.checkedFrame frame.payloadLen with
      | .error failure => (.error failure,inserted)
      | .ok () => (.ok (),inserted.pushControl (Outbound.control frame))

def closeRouteLocally : MuxShared :=
  if (mux.entry route).isSome then
    { mux with
      state :=
        { mux.state with
          routes := mux.state.routes.remove route
          order := mux.state.order.filter (fun other => decide (other ≠ route)) } }
  else mux

def closeRoute (code : Nat) (detail : String) : MuxShared :=
  if (mux.entry route).isSome then
    let removed := mux.closeRouteLocally route
    if mux.closed then removed
    else removed.pushControl (Outbound.control (.routeClose route code detail))
  else mux

def grantCredit (delta : Nat) : MuxShared :=
  if delta = 0 ∨ mux.closed then mux
  else mux.pushControl (Outbound.control (.credit route delta))

def noteConsumed : MuxShared :=
  match mux.entry route with
  | none => mux
  | some entry =>
    let consumed := saturatingAdd entry.consumedSinceGrant 1
    let threshold := min mux.config.creditGrantThreshold (max entry.window 1)
    if consumed < threshold then
      mux.setEntry route { entry with consumedSinceGrant := consumed }
    else
      (mux.setEntry route { entry with consumedSinceGrant := 0 }).grantCredit route consumed

/-- The application takes the oldest buffered frame of a route. -/
def receive : Option Message × MuxShared :=
  match mux.entry route with
  | none => (none,mux)
  | some entry =>
    match entry.inbound with
    | [] => (none,mux)
    | message :: rest =>
      (some message,(mux.setEntry route { entry with inbound := rest }).noteConsumed route)

def receiveControl : MuxShared :=
  { mux with
    state :=
      { mux.state with
        inbound := mux.state.inbound.map fun sinks =>
          { sinks with control := sinks.control.drop 1 } } }

def receiveDatagram : MuxShared :=
  { mux with
    state :=
      { mux.state with
        inbound := mux.state.inbound.map fun sinks =>
          { sinks with datagrams := sinks.datagrams.drop 1 } } }

/-- The connection closes once: later reasons are ignored. -/
def close (reason : CloseReason) : MuxShared :=
  if mux.closed then mux
  else
    { mux with
      closed := true
      closeReason := mux.closeReason <|> some reason
      state :=
        { mux.state with
          routes := OrderedMap.empty
          order := []
          control := []
          datagrams := []
          inbound := none } }

/-- `waiting` is the await on a full control sink: the frame has not been taken. -/
inductive Dispatched where
  | handled
  | peerClosed
  | waiting
  deriving DecidableEq

def dispatchControl (message : Message) : Except TransportError Dispatched × MuxShared :=
  match mux.state.inbound with
  | none => (.ok .peerClosed,mux)
  | some sinks =>
    if max mux.config.controlQueueDepth 1 ≤ sinks.control.length then (.ok .waiting,mux)
    else
      (.ok .handled,
        { mux with
          state :=
            { mux.state with
              inbound := some { sinks with control := sinks.control ++ [message] } } })

def dispatchDatagram (message : Message) : Except TransportError Dispatched × MuxShared :=
  match mux.state.inbound with
  | none => (.ok .handled,mux)
  | some sinks =>
    if max mux.config.datagramQueueDepth 1 ≤ sinks.datagrams.length then (.ok .handled,mux)
    else
      (.ok .handled,
        { mux with
          state :=
            { mux.state with
              inbound := some { sinks with datagrams := sinks.datagrams ++ [message] } } })

/-- Frames of an unknown route are dropped; a full channel means the peer overran
its window and closes the route. -/
def dispatchRouteData (message : Message) : Except TransportError Dispatched × MuxShared :=
  match mux.entry route with
  | none => (.ok .handled,mux)
  | some entry =>
    if entry.inbound.length < entry.capacity then
      (.ok .handled,mux.setEntry route { entry with inbound := entry.inbound ++ [message] })
    else
      (.error (.flowControlViolation route entry.window),
        mux.closeRoute route closeCodeFlowControl "flow-control window overrun")

def answerOpen (credit : Nat) (accepted : Bool) (detail : String) : MuxShared :=
  mux.pushControl (Outbound.control (.routeAccept route credit accepted detail))

def rejectRoute (code : Nat) (detail : String) : MuxShared :=
  (mux.answerOpen route 0 false detail).pushControl
    (Outbound.control (.routeClose route code detail))

def dispatchRouteOpen (credit : Nat) (descriptor : Bytes) :
    Except TransportError Dispatched × MuxShared :=
  if mux.side.ownsRoute route then
    (.ok .handled,
      mux.rejectRoute route closeCodeDuplicate "route handle parity belongs to this end")
  else
    let window := if credit = 0 then mux.config.initialWindowFrames else credit
    match mux.insertRoute route window true with
    | .ok inserted =>
      match inserted.state.inbound with
      | none => (.ok .peerClosed,inserted)
      | some sinks =>
        let offered : MuxShared :=
          { inserted with
            state :=
              { inserted.state with
                inbound := some
                  { sinks with
                    accepts := sinks.accepts ++ [{ route := route, descriptor := descriptor }] } } }
        (.ok .handled,offered.answerOpen route window true "")
    | .error (.routeLimitReached limit) =>
      (.ok .handled,mux.rejectRoute route closeCodeRouteLimit s!"route limit of {limit} reached")
    | .error (.duplicateRoute _) =>
      (.ok .handled,mux.rejectRoute route closeCodeDuplicate "route handle already in use")
    | .error failure => (.error failure,mux)

/-- The peer's answer replaces the optimistic window and never widens the credit. -/
def dispatchRouteAccept (credit : Nat) (accepted : Bool) :
    Except TransportError Dispatched × MuxShared :=
  if accepted then
    match mux.entry route with
    | none => (.ok .handled,mux)
    | some entry =>
      (.ok .handled,mux.setEntry route
          { entry with
            confirmed := true
            credit := min entry.credit credit
            window := max credit 1 })
  else (.ok .handled,mux.closeRouteLocally route)

def addCredit (delta : Nat) : MuxShared :=
  match mux.entry route with
  | none => mux
  | some entry => mux.setEntry route { entry with credit := saturatingAdd entry.credit delta }

def dispatch (frame : MuxFrame) : Except TransportError Dispatched × MuxShared :=
  if frame.isRouteScoped = true ∧ frame.route = 0 then (.error (.routeMismatch 0),mux)
  else
    match frame with
    | .control message => mux.dispatchControl message
    | .datagram message => mux.dispatchDatagram message
    | .routeData route message => mux.dispatchRouteData route message
    | .routeOpen route credit descriptor => mux.dispatchRouteOpen route credit descriptor
    | .routeAccept route credit accepted _ => mux.dispatchRouteAccept route credit accepted
    | .routeClose route _ _ => (.ok .handled,mux.closeRouteLocally route)
    | .credit route delta => (.ok .handled,mux.addCredit route delta)

end MuxShared

end Astrs.Mux
