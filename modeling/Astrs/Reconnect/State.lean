/-
A connection that re-establishes itself.

The producer and the supervisor work on shared slots behind separate locks, so a call of
the one and a pass of the other are cut where another thread can run in between.  The
events, the statistics, the session offered for resuming, and stopping the supervisor from
outside are left out.
-/

import Astrs.Mux.State

namespace Astrs.Reconnect

open Astrs.Mux (FrameKind TransportError CloseReason MuxFrame Bytes)

/-- A control frame; `call` is the number of the producer's call that sent it. -/
structure Frame where
  call : Nat
  kind : FrameKind
  payload : Bytes
  deriving DecidableEq

inductive OverflowPolicy where
  | reject
  | dropOldest
  | dropNewest
  deriving DecidableEq

structure ReconnectBuffer where
  frames : List Frame
  capacity : Nat
  policy : OverflowPolicy
  dropped : Nat
  queuedBytes : Nat
  deriving DecidableEq

namespace ReconnectBuffer

def new (capacity : Nat) (policy : OverflowPolicy) : ReconnectBuffer :=
  { frames := [], capacity := capacity, policy := policy, dropped := 0, queuedBytes := 0 }

def isFull (buffer : ReconnectBuffer) : Bool := decide (buffer.capacity ≤ buffer.frames.length)

def store (buffer : ReconnectBuffer) (frame : Frame) : ReconnectBuffer :=
  { buffer with
    frames := buffer.frames ++ [frame]
    queuedBytes := buffer.queuedBytes + frame.payload.length }

/-- A full buffer refuses the frame, discards it silently, or evicts its oldest; with
no capacity at all there is nothing to evict and the new frame goes. -/
def push (buffer : ReconnectBuffer) (frame : Frame) :
    Except TransportError Unit × ReconnectBuffer :=
  if buffer.isFull then
    match buffer.policy with
    | .reject =>
      (.error (.reconnectBufferOverflow 1 buffer.capacity),
        { buffer with dropped := buffer.dropped + 1 })
    | .dropNewest => (.ok (),{ buffer with dropped := buffer.dropped + 1 })
    | .dropOldest =>
      match buffer.frames with
      | [] => (.ok (),{ buffer with dropped := buffer.dropped + 1 })
      | evicted :: rest =>
        (.ok (),
          { buffer with
            frames := rest
            dropped := buffer.dropped + 1
            queuedBytes := buffer.queuedBytes - evicted.payload.length }.store frame)
  else (.ok (),buffer.store frame)

def drain (buffer : ReconnectBuffer) : List Frame × ReconnectBuffer :=
  (buffer.frames,{ buffer with frames := [], queuedBytes := 0, dropped := 0 })

def clear (buffer : ReconnectBuffer) : ReconnectBuffer :=
  { buffer with
    frames := [], dropped := buffer.dropped + buffer.frames.length, queuedBytes := 0 }

end ReconnectBuffer

/-- One incarnation of the link, as its control sender sees it: the frames it has
accepted, how many of them still hold a slot of the queue, and its limits. -/
structure Connection where
  handed : List Frame
  waiting : Nat
  depth : Nat
  maxPayload : Nat
  closeReason : Option CloseReason
  deriving DecidableEq

namespace Connection

def isClosed (connection : Connection) : Bool := connection.closeReason.isSome

def new (depth maxPayload : Nat) : Connection :=
  { handed := []
    waiting := 0
    depth := max depth 1
    maxPayload := maxPayload
    closeReason := none }

def fits (connection : Connection) (frame : Frame) : Bool :=
  decide (MuxFrame.headerLen + frame.payload.length ≤ connection.maxPayload)

/-- Queueing against a permit that is already held. -/
def queueControlMetered (connection : Connection) (frame : Frame) :
    Except TransportError Connection :=
  match connection.closeReason with
  | some reason => .error (.closed reason)
  | none =>
    if connection.fits frame then
      .ok
        { connection with
          handed := connection.handed ++ [frame], waiting := connection.waiting + 1 }
    else
      .error (.frameTooLarge (MuxFrame.headerLen + frame.payload.length) connection.maxPayload)

def trySend (connection : Connection) (frame : Frame) : Except TransportError Connection :=
  if connection.depth ≤ connection.waiting then .error (.sendQueueFull 0 connection.depth)
  else connection.queueControlMetered frame

end Connection

/-! ### The two parties -/

inductive LinkState where
  | dialling
  | connected
  | backoff
  | stopped
  deriving DecidableEq

/-- Where the supervisor stands between two points at which others can run. -/
inductive Stage where
  | dialling
  | established
  | flushing (pending : List Frame)
  | flushed
  | installed
  | pumping
  | lost
  | backoff
  | stopped
  deriving DecidableEq

/-- Where the producer's call stands: it holds the connection it read, or it is about
to buffer the frame. -/
inductive Producer where
  | idle
  | holding (frame : Frame) (handle : Option Nat)
  | diverting (frame : Frame)
  deriving DecidableEq

/-- The shared state.  Connections are numbered in the order they were established:
`past` holds the earlier ones, `live` the newest.  `accepted` lists the frames whose
call returned without an error. -/
structure Reconnector where
  past : List Connection
  live : Option Connection
  current : Option Nat
  buffer : ReconnectBuffer
  link : LinkState
  stage : Stage
  producer : Producer
  calls : Nat
  accepted : List Frame
  deriving DecidableEq

inductive Step where
  | call (kind : FrameKind) (payload : Bytes)
  | attempt
  | divert
  | connect (depth maxPayload : Nat)
  | dialFailed
  | drain
  | flushNext
  | install
  | connected
  | disconnect
  | backOff
  | retry
  | giveUp
  | release (handle : Nat)
  | close (handle : Nat) (reason : CloseReason)
  deriving DecidableEq

namespace Reconnector

def start (capacity : Nat) (policy : OverflowPolicy) : Reconnector :=
  { past := []
    live := none
    current := none
    buffer := ReconnectBuffer.new capacity policy
    link := .dialling
    stage := .dialling
    producer := .idle
    calls := 0
    accepted := [] }

variable (shared : Reconnector)

def connection (handle : Nat) : Option Connection :=
  if handle = shared.past.length then shared.live else shared.past[handle]?

def setConnection (handle : Nat) (changed : Connection) : Reconnector :=
  if handle = shared.past.length then { shared with live := some changed }
  else { shared with past := shared.past.set handle changed }

def accept (frame : Frame) : Reconnector :=
  { shared with producer := .idle, accepted := shared.accepted ++ [frame] }

/-- The producer tries the connection it read.  A full queue and a closed connection
send the frame to the buffer; any other failure is the caller's. -/
def attempt : Reconnector :=
  match shared.producer with
  | .holding frame none => { shared with producer := .diverting frame }
  | .holding frame (some handle) =>
    match shared.connection handle with
    | none => { shared with producer := .diverting frame }
    | some found =>
      match found.trySend frame with
      | .ok changed => (shared.setConnection handle changed).accept frame
      | .error (.sendQueueFull _ _) => { shared with producer := .diverting frame }
      | .error (.closed _) => { shared with producer := .diverting frame }
      | .error _ => { shared with producer := .idle }
  | _ => shared

def divert : Reconnector :=
  match shared.producer with
  | .diverting frame =>
    match shared.buffer.push frame with
    | (.ok (),buffer) => { shared with buffer := buffer }.accept frame
    | (.error _,buffer) => { shared with buffer := buffer, producer := .idle }
  | _ => shared

/-- Handing over the next frame of the flush waits for a free slot.  A failure puts the
frame and everything behind it back and ends the flush. -/
def flushNext : Reconnector :=
  match shared.stage, shared.live with
  | .flushing [],_ => { shared with stage := .flushed }
  | .flushing (frame :: rest),some live =>
    if live.depth ≤ live.waiting then shared
    else
      match live.queueControlMetered frame with
      | .ok changed => { shared with live := some changed, stage := .flushing rest }
      | .error _ =>
        { shared with
          buffer := (frame :: rest).foldl (fun buffer frame => (buffer.push frame).2) shared.buffer
          stage := .flushed }
  | _,_ => shared

def perform : Step → Reconnector
  | .call kind payload =>
    match shared.producer with
    | .idle =>
      { shared with
        producer := .holding { call := shared.calls, kind := kind, payload := payload }
          shared.current
        calls := shared.calls + 1 }
    | _ => shared
  | .attempt => shared.attempt
  | .divert => shared.divert
  | .connect depth maxPayload =>
    match shared.stage with
    | .dialling =>
      { shared with
        past := shared.past ++ shared.live.toList
        live := some (Connection.new depth maxPayload)
        stage := .established }
    | _ => shared
  | .dialFailed =>
    match shared.stage with
    | .dialling => { shared with link := .backoff, stage := .backoff }
    | _ => shared
  | .drain =>
    match shared.stage with
    | .established =>
      { shared with
        buffer := shared.buffer.drain.2, stage := .flushing shared.buffer.drain.1 }
    | _ => shared
  | .flushNext => shared.flushNext
  | .install =>
    match shared.stage with
    | .flushed => { shared with current := some shared.past.length, stage := .installed }
    | _ => shared
  | .connected =>
    match shared.stage with
    | .installed => { shared with link := .connected, stage := .pumping }
    | _ => shared
  | .disconnect =>
    match shared.stage with
    | .pumping =>
      if shared.live.all Connection.isClosed then { shared with current := none, stage := .lost }
      else shared
    | _ => shared
  | .backOff =>
    match shared.stage with
    | .lost => { shared with link := .backoff, stage := .backoff }
    | _ => shared
  | .retry =>
    match shared.stage with
    | .backoff => { shared with link := .dialling, stage := .dialling }
    | _ => shared
  | .giveUp =>
    match shared.stage with
    | .backoff =>
      { shared with buffer := shared.buffer.clear, link := .stopped, stage := .stopped }
    | _ => shared
  | .release handle =>
    match shared.connection handle with
    | some found => shared.setConnection handle { found with waiting := found.waiting - 1 }
    | none => shared
  | .close handle reason =>
    match shared.connection handle with
    | some found =>
      shared.setConnection handle { found with closeReason := found.closeReason <|> some reason }
    | none => shared

def run (steps : List Step) : Reconnector := steps.foldl perform shared

def handed (shared : Reconnector) : List Frame :=
  (shared.past ++ shared.live.toList).flatMap Connection.handed

end Reconnector

end Astrs.Reconnect
