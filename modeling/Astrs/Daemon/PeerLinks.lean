/-
The links to one peer daemon, as the event loop sees them.

The table holds one link under the peer's id, and frames and losses are handled under that id
alone, whichever link they come from.  A dial that fails is reported as a loss too.
-/

import Astrs.Daemon.PeerRoutes

namespace Astrs.Daemon

open Astrs.Base PeerRouteTable

variable {Port : Type}

/-- The link the table holds, the routes to and from the peer, and what the consumers were told. -/
structure PeerLinks (Port : Type) where
  installed : Option Nat := none
  routes : PeerRouteTable Port := {}
  told : List (PeerReaction Port) := []

/-- A link attaches with the consumers that routes are waiting for; a loss without a link is the
one a failed dial reports. -/
inductive LinkEvent (Port : Type)
  | peerAttached (link : Nat) (waiting : List Port)
  | peerFrame (link : Nat) (acceptance : RouteAcceptance) (event : PeerEvent Port)
  | peerLost (link : Option Nat)
  | disconnect

def PeerRouteTable.removePeer (table : PeerRouteTable Port) : PeerRouteTable Port :=
  { table with outbound := .empty, inbound := .empty }

/-- Only the consumers of routes that the peer opened are nodes of this daemon. -/
def PeerRouteTable.closeRemoteInputs (table : PeerRouteTable Port) : List (PeerReaction Port) :=
  table.inbound.values.map fun route => .inputClosed route.consumer

def PeerRouteTable.flushPeerRoutes (table : PeerRouteTable Port) (waiting : List Port) :
    PeerRouteTable Port := waiting.foldl setupRoute table

namespace PeerLinks

def handlePeerLost (links : PeerLinks Port) : PeerLinks Port where
  routes := links.routes.removePeer
  told := links.told ++ links.routes.closeRemoteInputs

def handlePeerFrame (links : PeerLinks Port) (acceptance : RouteAcceptance)
    (event : PeerEvent Port) : PeerLinks Port :=
  let done := links.routes.handleFrame acceptance event
  { links with routes := done.1, told := links.told ++ done.2.1 }

def handleEvent (links : PeerLinks Port) : LinkEvent Port → PeerLinks Port
  | .peerAttached link waiting =>
    -- The routes of a link that is replaced go with it.
    let stale := if links.installed.isSome then links.handlePeerLost else links
    { stale with installed := some link, routes := stale.routes.flushPeerRoutes waiting }
  | .peerFrame _ acceptance event => links.handlePeerFrame acceptance event
  | .peerLost _ => links.handlePeerLost
  -- The routes are gone before the inputs they fed could be closed.
  | .disconnect => { links with routes := links.routes.removePeer }.handlePeerLost

end PeerLinks

/-- The frame sets up no route and is about none that the table holds. -/
def PeerEvent.Stray (table : PeerRouteTable Port) : PeerEvent Port → Prop
  | .routeSetup _ _ => False
  | .routeAccept number _ => table.outbound.get number = none
  | .output number | .outputClosed number => table.inbound.get number = none
  | .routeTeardown _ number => table.outbound.get number = none ∧ table.inbound.get number = none

namespace LinkEvent

/-- The link's own loss, a replacement or a disconnect. -/
def Ends (link : Nat) : LinkEvent Port → Prop
  | .peerFrame .. => False
  | .peerLost lost => lost = some link
  | .peerAttached .. | .disconnect => True

/-- While a link is installed, no other is reported lost, nor a dial failed, and the frames of
others are stray. -/
def Due (links : PeerLinks Port) (link : Nat) : LinkEvent Port → Prop
  | .peerFrame source _ event => source = link ∨ event.Stray links.routes
  | .peerLost lost => lost = some link
  | .peerAttached .. | .disconnect => True

end LinkEvent

namespace PeerLinks

def Orderly : PeerLinks Port → List (LinkEvent Port) → Prop
  | _,[] => True
  | links,event :: rest => (∀ link, links.installed = some link → event.Due links link) ∧
    (links.handleEvent event).Orderly rest

variable {links : PeerLinks Port} {link : Nat}

def late : List (LinkEvent Char) :=
  [.peerFrame 0 .accepted (.output 1),.peerFrame 1 .accepted (.output 2),
    .peerFrame 0 .accepted (.routeTeardown true 1)]

end PeerLinks

end Astrs.Daemon
