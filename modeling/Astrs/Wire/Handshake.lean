/-
Opening a connection.

The acceptor answers a greeting with terms or a typed refusal, and the initiator checks
the terms against what it offered.  A greeting's label and the tables of names are left
out; a release is kept as its text.
-/

import Astrs.Base.Effect

namespace Astrs.Wire

open Astrs.Base

def protocolVersion : Nat := 1

def minSupportedProtocol : Nat := 1

def minUsablePayloadBytes : Nat := 64 * 1024

def durationMax : Nat := 18446744073709551615

abbrev AuthToken := List UInt8

abbrev SessionId := Nat

abbrev FeatureFlags := BitVec 64

/-- The fourteen bits this build has a name for. -/
def knownFeatures : FeatureFlags := 0x3fff#64

inductive Role where
  | cli
  | daemon
  | node
  | peer
  deriving DecidableEq

def Role.code : Role → Nat
  | .cli => 0
  | .daemon => 1
  | .node => 2
  | .peer => 3

abbrev RoleSet := BitVec 8

def allRoles : RoleSet := 0x0f#8

structure NegotiatedLimits where
  maxPayloadBytes : Nat := 67108864
  maxRoutes : Nat := 4096
  maxInflightFrames : Nat := 1024
  maxSubscriptions : Nat := 256
  heartbeatInterval : Nat := 5000
  keepaliveTimeout : Nat := 15000
  requireCrc : Bool := false
  deriving DecidableEq

namespace NegotiatedLimits

/-- No keepalive without a heartbeat, and otherwise at least two heartbeats long. -/
def repaired (limits : NegotiatedLimits) : NegotiatedLimits :=
  if limits.heartbeatInterval = 0 then { limits with keepaliveTimeout := 0 }
  else
    let floor := min (limits.heartbeatInterval * 2) durationMax
    if limits.keepaliveTimeout < floor then { limits with keepaliveTimeout := floor } else limits

def negotiate (limits other : NegotiatedLimits) : NegotiatedLimits := repaired
    { maxPayloadBytes := min limits.maxPayloadBytes other.maxPayloadBytes
      maxRoutes := min limits.maxRoutes other.maxRoutes
      maxInflightFrames := min limits.maxInflightFrames other.maxInflightFrames
      maxSubscriptions := min limits.maxSubscriptions other.maxSubscriptions
      heartbeatInterval := min limits.heartbeatInterval other.heartbeatInterval
      keepaliveTimeout := min limits.keepaliveTimeout other.keepaliveTimeout
      requireCrc := limits.requireCrc || other.requireCrc }

def permits (limits other : NegotiatedLimits) : Bool :=
  decide (other.maxPayloadBytes ≤ limits.maxPayloadBytes) &&
    decide (other.maxRoutes ≤ limits.maxRoutes) &&
    decide (other.maxInflightFrames ≤ limits.maxInflightFrames) &&
    decide (other.maxSubscriptions ≤ limits.maxSubscriptions)

end NegotiatedLimits

structure Hello where
  protocol : Nat
  astrsVersion : String
  role : Role
  auth : AuthToken
  features : FeatureFlags
  limits : NegotiatedLimits
  resume : Option SessionId

structure Welcome where
  protocol : Nat
  limits : NegotiatedLimits
  sessionId : SessionId
  features : FeatureFlags
  peerRole : Role
  astrsVersion : String
  resumed : Bool
  deriving DecidableEq

def Welcome.protocolIsSupported (welcome : Welcome) : Bool :=
  decide (minSupportedProtocol ≤ welcome.protocol) && decide (welcome.protocol ≤ protocolVersion)

inductive RefusalReason where
  | protocolTooOld (peer minimum : Nat)
  | badAuth
  | roleNotPermitted (role : Role)
  | tooManyConnections (limit : Nat)
  | shuttingDown
  | unknownSession (session : SessionId)
  | limitsUnacceptable (message : String)
  | internal (message : String)
  deriving DecidableEq

structure Refused where
  maxProtocol : Nat
  minProtocol : Nat
  reason : RefusalReason
  deriving DecidableEq

structure NegotiatedSession where
  protocol : Nat
  sessionId : SessionId
  features : FeatureFlags
  limits : NegotiatedLimits
  role : Role
  peerVersion : String
  resumed : Bool
  deriving DecidableEq

inductive SessionAssignment where
  | fresh (session : SessionId)
  | resumed (session : SessionId)
  | resumeUnavailable

structure Acceptor where
  expectedAuth : AuthToken
  requireAuth : Bool
  features : FeatureFlags
  limits : NegotiatedLimits
  acceptedRoles : RoleSet
  connectionLimit : Option Nat
  connectionsOpen : Nat
  shuttingDown : Bool
  minProtocol : Nat
  maxProtocol : Nat

inductive BuilderCall where
  | features (features : FeatureFlags)
  | limits (limits : NegotiatedLimits)
  | acceptedRoles (roles : RoleSet)
  | connectionLimit (limit : Option Nat)
  | connectionsOpen (count : Nat)
  | shuttingDown (shutting : Bool)
  | protocolRange (min max : Nat)

namespace Acceptor

def new (expectedAuth : AuthToken) : Acceptor :=
  { expectedAuth := expectedAuth
    requireAuth := true
    features := 0#64
    limits := {}
    acceptedRoles := allRoles
    connectionLimit := none
    connectionsOpen := 0
    shuttingDown := false
    minProtocol := minSupportedProtocol
    maxProtocol := protocolVersion }

def withoutAuth : Acceptor := { new (List.replicate 32 0) with requireAuth := false }

/-- The oldest protocol is lowered to the newest where the two cross. -/
def withProtocolRange (acceptor : Acceptor) (low high : Nat) : Acceptor :=
  let newest := min high protocolVersion
  { acceptor with
    minProtocol := min (max low minSupportedProtocol) newest
    maxProtocol := newest }

def call (acceptor : Acceptor) : BuilderCall → Acceptor
  | .features features => { acceptor with features := features }
  | .limits limits => { acceptor with limits := limits }
  | .acceptedRoles roles => { acceptor with acceptedRoles := roles }
  | .connectionLimit limit => { acceptor with connectionLimit := limit }
  | .connectionsOpen count => { acceptor with connectionsOpen := count }
  | .shuttingDown shutting => { acceptor with shuttingDown := shutting }
  | .protocolRange low high => acceptor.withProtocolRange low high

/-- An acceptor that asks for a token, or for none, after some setters were called on it. -/
def built (token : Option AuthToken) (calls : List BuilderCall) : Acceptor :=
  calls.foldl call (match token with
    | some expected => new expected
    | none => withoutAuth)

def acceptsRole (acceptor : Acceptor) (role : Role) : Bool :=
  decide (acceptor.acceptedRoles &&& (1#8 <<< role.code) ≠ 0#8)

def hasCapacity (acceptor : Acceptor) : Bool :=
  match acceptor.connectionLimit with
  | some limit => decide (acceptor.connectionsOpen < limit)
  | none => true

def refuse (acceptor : Acceptor) (reason : RefusalReason) : Refused :=
  { maxProtocol := acceptor.maxProtocol, minProtocol := acceptor.minProtocol, reason := reason }

end Acceptor

/-- The session a connection gets and whether it resumes one. -/
def Acceptor.assign (acceptor : Acceptor) :
    SessionAssignment → Option SessionId → Except Refused (SessionId × Bool)
  | .resumed session,requested => .ok (session,requested.isSome)
  | .fresh session,_ => .ok (session,false)
  | .resumeUnavailable,some requested => .error (acceptor.refuse (.unknownSession requested))
  | .resumeUnavailable,none =>
    .error (acceptor.refuse (.internal "no session was assigned to this connection"))

/-- The reply that opens a connection, and what the acceptor remembers of it. -/
def opened (hello : Hello) (acceptor : Acceptor) (protocol : Nat) (granted : SessionId × Bool)
    (ownVersion : String) : Welcome × NegotiatedSession :=
  let limits := acceptor.limits.negotiate hello.limits
  let features := acceptor.features &&& hello.features &&& knownFeatures
  (⟨protocol,limits,granted.1,features,hello.role,ownVersion,granted.2⟩,
    ⟨protocol,granted.1,features,limits,hello.role,hello.astrsVersion,granted.2⟩)

def negotiate (hello : Hello) (acceptor : Acceptor) (session : SessionAssignment)
    (ownVersion : String) : Except Refused (Welcome × NegotiatedSession) := do
  let tooOld := acceptor.refuse (.protocolTooOld hello.protocol acceptor.minProtocol)
  ensure (!acceptor.shuttingDown) (acceptor.refuse .shuttingDown)
  ensure (decide (minSupportedProtocol ≤ hello.protocol)) tooOld
  let protocol := min (min hello.protocol protocolVersion) acceptor.maxProtocol
  ensure (decide (acceptor.minProtocol ≤ protocol)) tooOld
  ensure (!acceptor.requireAuth || decide (acceptor.expectedAuth = hello.auth))
    (acceptor.refuse .badAuth)
  ensure (acceptor.acceptsRole hello.role) (acceptor.refuse (.roleNotPermitted hello.role))
  ensure acceptor.hasCapacity
    (acceptor.refuse (.tooManyConnections (acceptor.connectionLimit.getD 4294967295)))
  let granted ← acceptor.assign session hello.resume
  let ceiling := (acceptor.limits.negotiate hello.limits).maxPayloadBytes
  ensure (decide (minUsablePayloadBytes ≤ ceiling))
    (acceptor.refuse (.limitsUnacceptable (s!"an agreed payload ceiling of {ceiling} B is " ++
      s!"below the {minUsablePayloadBytes} B the protocol needs")))
  pure (opened hello acceptor protocol granted ownVersion)

inductive HandshakeError where
  | protocolNotSupported (chosen minimum maximum : Nat)
  | protocolAboveOffer (chosen offered : Nat)
  | roleMismatch (offered echoed : Role)
  | featuresNotOffered (unexpected : FeatureFlags)
  | limitsExceedOffer (offered granted : NegotiatedLimits)
  | unexpectedResume (session : SessionId)
  deriving DecidableEq

def acceptWelcome (hello : Hello) (welcome : Welcome) :
    Except HandshakeError NegotiatedSession := do
  ensure (decide (welcome.protocol ≤ hello.protocol))
    (.protocolAboveOffer welcome.protocol hello.protocol)
  ensure welcome.protocolIsSupported
    (.protocolNotSupported welcome.protocol minSupportedProtocol protocolVersion)
  ensure (decide (welcome.peerRole = hello.role)) (.roleMismatch hello.role welcome.peerRole)
  let unexpected := welcome.features &&& ~~~hello.features
  ensure (decide (unexpected = 0#64)) (.featuresNotOffered unexpected)
  ensure (hello.limits.permits welcome.limits) (.limitsExceedOffer hello.limits welcome.limits)
  ensure (!welcome.resumed || hello.resume.isSome) (.unexpectedResume welcome.sessionId)
  pure ⟨welcome.protocol,welcome.sessionId,welcome.features,welcome.limits,hello.role,
    welcome.astrsVersion,welcome.resumed⟩

def BuilderCall.asks (asked : Nat) : BuilderCall → Nat
  | .protocolRange _ high => high
  | _ => asked

/-- The newest protocol the last range call asked for. -/
def askedMax (calls : List BuilderCall) : Nat := calls.foldl BuilderCall.asks protocolVersion

/-- The range an acceptor has after a call asked for its newest protocol. -/
def Acceptor.Ranged (acceptor : Acceptor) (asked : Nat) : Prop :=
  acceptor.maxProtocol = min protocolVersion asked ∧
    (minSupportedProtocol ≤ asked → minSupportedProtocol ≤ acceptor.minProtocol)

variable {acceptor : Acceptor} {session : SessionAssignment} {granted : SessionId × Bool}
  {hello : Hello} {ownVersion : String}

theorem Acceptor.Ranged.foldl {asked : Nat} (calls : List BuilderCall)
    (ranged : acceptor.Ranged asked) :
    (calls.foldl call acceptor).Ranged (calls.foldl BuilderCall.asks asked) := by
  induction calls generalizing acceptor asked with
  | nil => exact ranged
  | cons next _ ih =>
    apply ih
    cases next with
    | protocolRange =>
      simp only [Ranged,call,withProtocolRange,BuilderCall.asks,minSupportedProtocol,
        protocolVersion]
      omega
    | features | limits | acceptedRoles | connectionLimit | connectionsOpen | shuttingDown =>
      exact ranged

theorem Acceptor.ranged_built (token : Option AuthToken) (calls : List BuilderCall) :
    (built token calls).Ranged (askedMax calls) := by
  apply Ranged.foldl
  cases token <;> exact ⟨rfl,fun supported => supported⟩

theorem NegotiatedLimits.permits_negotiate (limits offered : NegotiatedLimits) :
    offered.permits (limits.negotiate offered) = true := by
  unfold negotiate repaired permits
  simp only [Bool.and_eq_true,decide_eq_true_eq]
  split
  · refine ⟨⟨⟨?_,?_⟩,?_⟩,?_⟩ <;> exact Nat.min_le_right _ _
  · split <;> refine ⟨⟨⟨?_,?_⟩,?_⟩,?_⟩ <;> exact Nat.min_le_right _ _

theorem resumed_requested {requested : Option SessionId}
    (assigned : acceptor.assign session requested = .ok granted) :
    (!granted.2 || requested.isSome) = true := by
  cases session with
  | fresh => cases assigned; rfl
  | resumed => cases assigned; cases requested <;> rfl
  | resumeUnavailable => cases requested <;> cases assigned

theorem offered_subset (own offered : FeatureFlags) :
    own &&& offered &&& knownFeatures &&& ~~~offered = 0#64 := by
  ext position inside
  simp only [BitVec.getElem_and,BitVec.getElem_not,BitVec.getElem_zero]
  cases offered[position] <;> simp

theorem negotiate_ok {reply : Welcome × NegotiatedSession}
    (accepted : negotiate hello acceptor session ownVersion = .ok reply) :
    ∃ protocol granted, protocol = min (min hello.protocol protocolVersion) acceptor.maxProtocol ∧
      minSupportedProtocol ≤ hello.protocol ∧ acceptor.minProtocol ≤ protocol ∧
      acceptor.assign session hello.resume = .ok granted ∧
      reply = opened hello acceptor protocol granted ownVersion := by
  simp only [negotiate,ensure_bind_ok,decide_eq_true_eq] at accepted
  obtain ⟨_,least,recent,_,_,_,accepted⟩ := accepted
  obtain ⟨granted,assigned,accepted⟩ := bind_ok accepted
  simp only [ensure_bind_ok] at accepted
  exact ⟨_,granted,rfl,least,recent,assigned,(Except.ok.inj accepted.2).symm⟩

theorem acceptWelcome_opened {protocol : Nat} (within : protocol ≤ hello.protocol)
    (supported : minSupportedProtocol ≤ protocol) (bounded : protocol ≤ protocolVersion)
    (assigned : acceptor.assign session hello.resume = .ok granted) :
    acceptWelcome hello (opened hello acceptor protocol granted ownVersion).1 =
      .ok { (opened hello acceptor protocol granted ownVersion).2 with
        peerVersion := ownVersion } := by
  simp only [acceptWelcome,opened,ensure_bind_ok,Welcome.protocolIsSupported,offered_subset,
    NegotiatedLimits.permits_negotiate,resumed_requested assigned,within,supported,bounded,
    decide_true,Bool.and_self,true_and]
  rfl

/-- Where the acceptor opens a connection, the initiator opens the same one, and on a protocol
this build implements, exactly if the acceptor was not last told to stay below the oldest. -/
theorem handshake_agrees_iff (token : Option AuthToken) (calls : List BuilderCall)
    (hello : Hello) (session : SessionAssignment) (ownVersion : String) (welcome : Welcome)
    (own : NegotiatedSession)
    (accepted : negotiate hello (.built token calls) session ownVersion = .ok (welcome,own)) :
    ((∃ other, acceptWelcome hello welcome = .ok other ∧
        { other with peerVersion := own.peerVersion } = own) ∧
      minSupportedProtocol ≤ own.protocol ∧ own.protocol ≤ protocolVersion) ↔
      minSupportedProtocol ≤ askedMax calls := by
  obtain ⟨newest,oldest⟩ := Acceptor.ranged_built token calls
  obtain ⟨protocol,_,chosen,_,recent,assigned,same⟩ := negotiate_ok accepted
  cases same
  rw [newest] at chosen
  constructor
  · rintro ⟨_,supported,_⟩
    have supported : minSupportedProtocol ≤ protocol := supported
    omega
  · intro asked
    have supported : minSupportedProtocol ≤ protocol := Nat.le_trans (oldest asked) recent
    have bounded : protocol ≤ protocolVersion := by omega
    exact ⟨⟨_,acceptWelcome_opened (by omega) supported bounded assigned,rfl⟩,supported,bounded⟩

def nodeHello : Hello :=
  { protocol := 1
    astrsVersion := "1.0.0"
    role := .node
    auth := []
    features := 5#64
    limits := {}
    resume := none }

theorem nodes_agree : ∃ welcome own,
    negotiate nodeHello (.built none [.features 1#64]) (.fresh 7) "1.0.0" = .ok (welcome,own) ∧
      ∃ other, acceptWelcome nodeHello welcome = .ok other ∧ other.sessionId = 7 := by
  have accepted : negotiate nodeHello (.built none [.features 1#64]) (.fresh 7) "1.0.0" =
      .ok (opened nodeHello (.built none [.features 1#64]) 1 (7,false) "1.0.0") := by
    decide +kernel
  refine ⟨_,_,accepted,?_⟩
  obtain ⟨⟨other,agreed,same⟩,_⟩ :=
    (handshake_agrees_iff none [.features 1#64] nodeHello (.fresh 7) "1.0.0" _ _ accepted).mpr
      (by decide)
  exact ⟨other,agreed,congrArg NegotiatedSession.sessionId same⟩

/-- An acceptor told to speak at most protocol zero opens a connection that the initiator
refuses. -/
theorem protocol_zero_granted : ∃ welcome own,
    negotiate nodeHello (.built none [.protocolRange 0 0]) (.fresh 7) "1.0.0" = .ok (welcome,own) ∧
      acceptWelcome nodeHello welcome = .error (.protocolNotSupported 0 1 1) := by
  have accepted : negotiate nodeHello (.built none [.protocolRange 0 0]) (.fresh 7) "1.0.0" =
      .ok (opened nodeHello (.built none [.protocolRange 0 0]) 0 (7,false) "1.0.0") := by
    decide +kernel
  exact ⟨_,_,accepted,by decide +kernel⟩

theorem acceptWelcome_ok {welcome : Welcome} {other : NegotiatedSession}
    (accepted : acceptWelcome hello welcome = .ok other) :
    welcome.protocol ≤ hello.protocol ∧ welcome.features &&& ~~~hello.features = 0#64 ∧
      hello.limits.permits welcome.limits = true ∧
      other = ⟨welcome.protocol,welcome.sessionId,welcome.features,welcome.limits,hello.role,
        welcome.astrsVersion,welcome.resumed⟩ := by
  simp only [acceptWelcome,ensure_bind_ok,decide_eq_true_eq] at accepted
  obtain ⟨within,_,_,offered,permitted,_,accepted⟩ := accepted
  exact ⟨within,offered,permitted,(Except.ok.inj accepted).symm⟩

/-- A period that is neither disabled nor lengthened; zero stands for a disabled one. -/
def Tightens (offered granted : Nat) : Prop := offered ≠ 0 → granted ≠ 0 ∧ granted ≤ offered

/-- A session that allows no more than the greeting offered.  The offered keepalive is the
one that is left when the offer is repaired. -/
structure Hello.Bounds (hello : Hello) (session : NegotiatedSession) : Prop where
  protocol : session.protocol ≤ hello.protocol
  maxPayloadBytes : session.limits.maxPayloadBytes ≤ hello.limits.maxPayloadBytes
  maxRoutes : session.limits.maxRoutes ≤ hello.limits.maxRoutes
  maxInflightFrames : session.limits.maxInflightFrames ≤ hello.limits.maxInflightFrames
  maxSubscriptions : session.limits.maxSubscriptions ≤ hello.limits.maxSubscriptions
  features : ∀ bit, session.features.getLsbD bit = true → hello.features.getLsbD bit = true
  requireCrc : hello.limits.requireCrc = true → session.limits.requireCrc = true
  heartbeat : Tightens hello.limits.heartbeatInterval session.limits.heartbeatInterval
  keepalive : Tightens hello.limits.repaired.keepaliveTimeout session.limits.keepaliveTimeout
  resumed : session.resumed = true → hello.resume = some session.sessionId

/-- What the initiator does not look at: the checksums, the two periods, and which session
was resumed. -/
def Welcome.KeepsRest (welcome : Welcome) (hello : Hello) : Prop :=
  (hello.limits.requireCrc = true → welcome.limits.requireCrc = true) ∧
    Tightens hello.limits.heartbeatInterval welcome.limits.heartbeatInterval ∧
    Tightens hello.limits.repaired.keepaliveTimeout welcome.limits.keepaliveTimeout ∧
    (welcome.resumed = true → hello.resume = some welcome.sessionId)

/-- An accepted reply narrows the offer exactly if it does so where nobody looks. -/
theorem accepted_narrows_iff (hello : Hello) (welcome : Welcome) (session : NegotiatedSession)
    (accepted : acceptWelcome hello welcome = .ok session) :
    hello.Bounds session ↔ welcome.KeepsRest hello := by
  obtain ⟨within,offered,permitted,rfl⟩ := acceptWelcome_ok accepted
  constructor
  · intro bounds
    exact ⟨bounds.requireCrc,bounds.heartbeat,bounds.keepalive,bounds.resumed⟩
  · rintro ⟨requireCrc,heartbeat,keepalive,resumed⟩
    simp only [NegotiatedLimits.permits,Bool.and_eq_true,decide_eq_true_eq] at permitted
    obtain ⟨⟨⟨payload,routes⟩,inflight⟩,subscriptions⟩ := permitted
    refine ⟨within,payload,routes,inflight,subscriptions,?_,requireCrc,heartbeat,keepalive,resumed⟩
    intro bit granted
    have none := congrArg (BitVec.getLsbD · bit) offered
    have inside : bit < 64 := BitVec.lt_of_getLsbD granted
    rw [BitVec.getLsbD_eq_getElem inside]
    simpa [granted,inside] using none

def bareWelcome : Welcome :=
  { protocol := 1
    limits := {}
    sessionId := 7
    features := 1#64
    peerRole := .node
    astrsVersion := "1.0.0"
    resumed := false }

theorem bare_welcome_narrows : ∃ session, acceptWelcome nodeHello bareWelcome = .ok session ∧
    nodeHello.Bounds session := by
  have accepted : acceptWelcome nodeHello bareWelcome =
      .ok ⟨1,7,1#64,{},.node,"1.0.0",false⟩ := by
    decide +kernel
  refine ⟨_,accepted,(accepted_narrows_iff nodeHello bareWelcome _ accepted).mpr ?_⟩
  exact ⟨nofun,fun _ => by decide,fun _ => by decide,nofun⟩

/-- A greeting that asks for checksums is answered with a session without them. -/
theorem checksums_dropped : ∃ session,
    acceptWelcome { nodeHello with limits := { requireCrc := true } } bareWelcome = .ok session ∧
      ¬ Hello.Bounds { nodeHello with limits := { requireCrc := true } } session := by
  have accepted : acceptWelcome { nodeHello with limits := { requireCrc := true } } bareWelcome =
      .ok ⟨1,7,1#64,{},.node,"1.0.0",false⟩ := by
    decide +kernel
  exact ⟨_,accepted,fun bounds => Bool.noConfusion (bounds.requireCrc rfl)⟩

end Astrs.Wire
