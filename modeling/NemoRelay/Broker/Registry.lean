import NemoRelay.Broker.Route
import NemoRelay.Lib.Transition

/-!
# Broker: the registry

The registry keeps one route for each machine user and one table that maps the digest of a token to
the user it belongs to. Both are behind one lock, and a method runs while it holds the lock, so a
method is one step. `current_directive` takes the lock twice; its second part is also a step of its
own, since other methods can run in between.

Requests that were given a worker are held by their callers. Dropping one touches only the shared
cells of its worker and needs no lock; it is a step as well.

The iteration of a hash table visits the entries in an order that the model takes as an argument.
-/

namespace NemoRelay.Broker

def defaultRetryAfterMs : Nat := 100

def maxRouteBindings : Nat := 4096

def maxMcpReferencesPerRoute : Nat := 1024

def defaultMaxTokensPerIdentity : Nat := 4

structure McpRegistration where
  fingerprint : Fingerprint
  tokenDigest : TokenDigest
  sessionId : McpSessionId
  leaseExpiresAtUnixMs : Nat

/-- The settings of a registry. Every identity may hold at least one token. -/
structure Registry where
  globalPassThrough : Bool
  requireWorker : Bool
  retryAfterMs : Nat
  routeCapacity : Nat
  maxTokensPerIdentity : Nat
  maxTokens_pos : 0 < maxTokensPerIdentity

namespace Registry

def new (globalPassThrough : Bool) : Registry where
  globalPassThrough := globalPassThrough
  requireWorker := false
  retryAfterMs := defaultRetryAfterMs
  routeCapacity := maxRouteBindings
  maxTokensPerIdentity := defaultMaxTokensPerIdentity
  maxTokens_pos := by decide

end Registry

/-- What the lock of the registry protects. -/
structure RegistryInner where
  routes : OrderedMap Fingerprint RouteEntry
  tokens : OrderedMap TokenDigest Fingerprint

namespace RegistryInner

def empty : RegistryInner := ⟨.empty, .empty⟩

def setRoute (inner : RegistryInner) (fingerprint : Fingerprint) (route : RouteEntry) :
    RegistryInner :=
  { inner with routes := inner.routes.insert fingerprint route }

/-- Runs a method on one route, which has to exist. -/
def onRoute {α : Type} (inner : RegistryInner) (fingerprint : Fingerprint)
    (action : RouteEntry → Except RegistryError α × RouteEntry) :
    Except RegistryError α × RegistryInner :=
  match inner.routes.get fingerprint with
  | none => (.error .unknownRoute, inner)
  | some route => ((action route).1, inner.setRoute fingerprint (action route).2)

/-! ## Registration -/

end RegistryInner

variable (route : RouteEntry)

/-- A route that no session refers to and that has no worker. -/
def RouteEntry.isRemovable : Bool :=
  route.refs.isEmpty &&
    match route.state with
    | .empty | .passThrough true => true
    | _ => false

namespace RegistryInner

variable (inner : RegistryInner)

/-- The route that is evicted to make room for `incoming`. -/
def evicted (incoming : Fingerprint) (capacity : Nat) (order : Fingerprint → Nat) :
    Option (Fingerprint × RouteEntry) :=
  if inner.routes.contains incoming ∨ inner.routes.size < capacity then none
  else (inner.routes.iterate order).find? fun entry => entry.2.isRemovable

variable (fingerprint : Fingerprint)

/-- Removes a route and the tokens it lists. -/
def removeRoute (route : RouteEntry) : RegistryInner where
  routes := inner.routes.erase fingerprint
  tokens := route.tokenDigests.foldl OrderedMap.erase inner.tokens

def evictInactiveRoutesAtCapacity (incoming : Fingerprint) (capacity : Nat)
    (order : Fingerprint → Nat) : RegistryInner :=
  match inner.evicted incoming capacity order with
  | some (fingerprint, route) => inner.removeRoute fingerprint route
  | none => inner

def validateBinding (tokenDigest : TokenDigest) : Except RegistryError Unit :=
  match inner.tokens.get tokenDigest with
  | some existing => if existing = fingerprint then .ok () else .error .tokenAlreadyBound
  | none => .ok ()

def validateCapacity (routeCapacity : Nat) : Except RegistryError Unit :=
  if !inner.routes.contains fingerprint && decide (routeCapacity ≤ inner.routes.size) then
    .error .routeCapacityReached
  else .ok ()

def validateReferences (sessionId : McpSessionId) : Except RegistryError Unit :=
  match inner.routes.get fingerprint with
  | some route =>
    if !route.refs.contains sessionId && decide (maxMcpReferencesPerRoute ≤ route.refs.size) then
      .error .mcpReferenceCapacityReached
    else .ok ()
  | none => .ok ()

end RegistryInner

/-- A token that no live session registered with. -/
def RouteEntry.isIdleToken (tokenDigest : TokenDigest) : Bool :=
  !route.refTokens.entries.any fun entry => entry.2 = tokenDigest

namespace RegistryInner

variable (inner : RegistryInner) (fingerprint : Fingerprint)

/-- Makes room for a new token by releasing the least recently registered idle one. -/
def admitToken (tokenDigest : TokenDigest) (maxTokensPerIdentity : Nat) :
    Except RegistryError Unit × RegistryInner :=
  match inner.routes.get fingerprint with
  | none => (.ok (), inner)
  | some route =>
    if tokenDigest ∈ route.tokenDigests ∨ route.tokenDigests.length < maxTokensPerIdentity then
      (.ok (), inner)
    else
      match route.tokenDigests.find? route.isIdleToken with
      | none => (.error .routeTokenLimitReached, inner)
      | some released =>
        (.ok (),
          { routes := inner.routes.insert fingerprint
              { route with tokenDigests := route.tokenDigests.erase released }
            tokens := inner.tokens.erase released })

/-- The route of an identity, or the one that is created on first use. -/
def routeOrNew (globalPassThrough : Bool) : RouteEntry :=
  (inner.routes.get fingerprint).getD (.new globalPassThrough)

/-- Binds a validated token to the route of its identity, creating the route on first use. -/
def bindToken (tokenDigest : TokenDigest) (globalPassThrough : Bool) : RouteEntry × RegistryInner :=
  let newlyBound := (inner.tokens.get tokenDigest).isNone
  let route := inner.routeOrNew fingerprint globalPassThrough
  let kept :=
    if newlyBound then route.tokenDigests else route.tokenDigests.filter fun digest =>
      digest ≠ tokenDigest
  let route := { route with tokenDigests := kept ++ [tokenDigest] }
  (route,
    { routes := inner.routes.insert fingerprint route
      tokens := inner.tokens.insert tokenDigest fingerprint })

/-- The validations of a registration, in their order. -/
def validate (registration : McpRegistration) (routeCapacity : Nat) :
    Except RegistryError Unit := do
  inner.validateBinding registration.fingerprint registration.tokenDigest
  inner.validateCapacity registration.fingerprint routeCapacity
  inner.validateReferences registration.fingerprint registration.sessionId

end RegistryInner

/-- Adds or renews the reference of a session. -/
def RouteEntry.addReference (registration : McpRegistration) : RouteEntry :=
  { route with
    refs := route.refs.insert registration.sessionId registration.leaseExpiresAtUnixMs
    refTokens := route.refTokens.insert registration.sessionId registration.tokenDigest }

variable (registry : Registry)

/-- Registers or renews an MCP session. The plan is used only if the call launches a worker. -/
def Registry.registerMcp (inner : RegistryInner) (cells : WorkerCells)
    (registration : McpRegistration) (plan : WorkerLaunch) (order : Fingerprint → Nat)
    (instant : Nat) : Except RegistryError BrokerDirective × RegistryInner :=
  let inner :=
    inner.evictInactiveRoutesAtCapacity registration.fingerprint registry.routeCapacity order
  match inner.validate registration registry.routeCapacity with
  | .error error => (.error error, inner)
  | .ok () =>
    match inner.admitToken registration.fingerprint registration.tokenDigest
        registry.maxTokensPerIdentity with
    | (.error error, inner) => (.error error, inner)
    | (.ok (), inner) =>
      let (route, inner) :=
        inner.bindToken registration.fingerprint registration.tokenDigest registry.globalPassThrough
      let (directive, route) :=
        (route.addReference registration).directiveFor cells registration.sessionId
          registry.retryAfterMs plan instant
      (.ok directive, inner.setRoute registration.fingerprint route)

/-! ## The other methods -/

namespace RegistryInner

variable (inner : RegistryInner) (cells : WorkerCells)

/-- The part of `current_directive` under the exclusive lock. -/
def currentDirectiveExclusive (fingerprint : Fingerprint) (sessionId : McpSessionId)
    (retryAfterMs : Nat) : Except RegistryError BrokerDirective × RegistryInner :=
  inner.onRoute fingerprint fun route =>
    if route.refs.contains sessionId then
      let (directive, route) := route.currentDirective cells sessionId retryAfterMs
      (.ok directive, route)
    else (.error .unknownMcpSession, route)

def currentDirective (fingerprint : Fingerprint) (sessionId : McpSessionId) (retryAfterMs : Nat) :
    Except RegistryError BrokerDirective × RegistryInner :=
  match inner.routes.get fingerprint with
  | none => (.error .unknownRoute, inner)
  | some route =>
    if route.refs.contains sessionId then
      match route.stableCurrentDirective cells sessionId retryAfterMs with
      | some directive => (.ok directive, inner)
      | none => inner.currentDirectiveExclusive cells fingerprint sessionId retryAfterMs
    else (.error .unknownMcpSession, inner)

def releaseMcp (fingerprint : Fingerprint) (sessionId : McpSessionId)
    (drainDeadlineUnixMs : Nat) : Except RegistryError ReleaseAction × RegistryInner :=
  inner.onRoute fingerprint fun route =>
    let (action, route) := route.releaseMcp sessionId drainDeadlineUnixMs
    (.ok action, route)

def mcpConnected (fingerprint : Fingerprint) (sessionId : McpSessionId) : RegistryInner :=
  match inner.routes.get fingerprint with
  | none => inner
  | some route => inner.setRoute fingerprint (route.mcpConnected sessionId)

def mcpDisconnected (fingerprint : Fingerprint) (sessionId : McpSessionId) :
    Option String × RegistryInner :=
  match inner.routes.get fingerprint with
  | none => (none, inner)
  | some route =>
    let (activationId, route) := route.mcpDisconnected sessionId
    (activationId, inner.setRoute fingerprint route)

def workerFailed (fingerprint : Fingerprint) (workerId : String) (recoveryDeadlineUnixMs : Nat) :
    Except RegistryError WorkerFailureAction × RegistryInner :=
  inner.onRoute fingerprint fun route =>
    let (action, route) := route.workerFailed workerId recoveryDeadlineUnixMs
    (.ok action, route)

def expireActivations (now : Nat) (order : Fingerprint → Nat) :
    List (Fingerprint × String) × RegistryInner :=
  ((inner.routes.iterate order).filterMap fun entry =>
      (entry.2.expireActivation now).1.map (entry.1, ·),
    { inner with routes := inner.routes.map fun _ route => (route.expireActivation now).2 })

def activationProgress (instant : Nat) (order : Fingerprint → Nat) :
    List (Fingerprint × Nat) × RegistryInner :=
  ((inner.routes.iterate order).filterMap fun entry =>
      (entry.2.activationProgress instant).1.map (entry.1, ·),
    { inner with routes := inner.routes.map fun _ route => (route.activationProgress instant).2 })

def activationCandidates (now : Nat) (order : Fingerprint → Nat) :
    List (Fingerprint × McpSessionId) :=
  (inner.routes.iterate order).filterMap fun entry =>
    if entry.2.isLaunchable && decide (entry.2.retryAtUnixMs ≤ now) then
      entry.2.firstConnected.map (entry.1, ·)
    else none

def markWorkerCommunicationFailed (fingerprint : Fingerprint) (workerId : String) :
    Except RegistryError (Option String) × WorkerCells :=
  match inner.routes.get fingerprint with
  | none => (.error .unknownRoute, cells)
  | some route => route.markWorkerCommunicationFailed workerId cells

def markRecoveryFailed (fingerprint : Fingerprint) (permit : RecoveryPermit) (now : Nat) :
    Except RegistryError (Option String) × RegistryInner × WorkerCells :=
  match inner.routes.get fingerprint with
  | none => (.error .unknownRoute, inner, cells)
  | some route =>
    let (reply, route, cells) := route.markRecoveryFailed permit now cells
    (reply, inner.setRoute fingerprint route, cells)

def authorizeWorkerRecovery (fingerprint : Fingerprint) (workerId : String) :
    Except RegistryError RecoveryPermit :=
  match inner.routes.get fingerprint with
  | none => .error .unknownRoute
  | some route => route.authorizeWorkerRecovery workerId

/-- Resolves and acquires a route from a request's token. -/
def resolveTarget (requireWorker : Bool) (tokenDigest : TokenDigest) :
    Except ResolveError ResolvedTarget × WorkerCells :=
  match inner.tokens.get tokenDigest with
  | none => (.error .unknownToken, cells)
  | some fingerprint =>
    match inner.routes.get fingerprint with
    | none => (.error .unknownToken, cells)
    | some route =>
      let unavailable : Except ResolveError ResolvedTarget :=
        if !route.refs.isEmpty && !requireWorker then .ok .passThrough
        else .error (.unavailable route.state.kind)
      match route.state with
      | .ready target =>
        if target.controlAvailable cells then
          let (request, cells) := target.acquire fingerprint cells
          (.ok (.worker request), cells)
        else (unavailable, cells)
      | _ => (unavailable, cells)

end RegistryInner

/-! ## The machine -/

/-- The calls into the registry, the drops of accepted requests, and the changes of the control
connections, with all they read from outside. -/
inductive RegistryOp
  | registerMcp (registration : McpRegistration) (plan : WorkerLaunch) (order : Fingerprint → Nat)
    (instant : Nat)
  | renewMcp (fingerprint : Fingerprint) (sessionId : McpSessionId) (leaseExpiresAtUnixMs : Nat)
  | currentDirective (fingerprint : Fingerprint) (sessionId : McpSessionId)
  | currentDirectiveExclusive (fingerprint : Fingerprint) (sessionId : McpSessionId)
  | releaseMcp (fingerprint : Fingerprint) (sessionId : McpSessionId) (drainDeadlineUnixMs : Nat)
  | mcpConnected (fingerprint : Fingerprint) (sessionId : McpSessionId)
  | mcpDisconnected (fingerprint : Fingerprint) (sessionId : McpSessionId)
  | cancelActivation (fingerprint : Fingerprint) (sessionId : McpSessionId) (activationId : String)
    (clock : Nat → Nat)
  | markWorkerReady (fingerprint : Fingerprint) (activationId : String) (target : WorkerTarget)
    (now : Nat)
  | markActivationFailed (fingerprint : Fingerprint) (activationId : String) (now : Nat)
  | expireActivations (now : Nat) (order : Fingerprint → Nat)
  | markWorkerCommunicationFailed (fingerprint : Fingerprint) (workerId : String)
  | workerFailed (fingerprint : Fingerprint) (workerId : String) (recoveryDeadlineUnixMs : Nat)
  | beginRelaunch (fingerprint : Fingerprint) (sessionId : McpSessionId) (plan : WorkerLaunch)
    (instant : Nat)
  | finishDrainingWorker (fingerprint : Fingerprint) (workerId : String) (now : Nat)
  | authorizeWorkerRecovery (fingerprint : Fingerprint) (workerId : String)
  | publishRecoveredWorker (fingerprint : Fingerprint) (permit : RecoveryPermit)
    (launchActivationId : Option String) (target : WorkerTarget) (now : Nat)
  | markRecoveryFailed (fingerprint : Fingerprint) (permit : RecoveryPermit) (now : Nat)
  | activationProgress (instant : Nat) (order : Fingerprint → Nat)
  | activationCandidates (now : Nat) (order : Fingerprint → Nat)
  | resolveTarget (tokenDigest : TokenDigest)
  | dropRequest (index : Nat)
  | setControlAvailable (target : WorkerTarget) (available : Bool)

inductive RegistryReply
  | directive (result : Except RegistryError BrokerDirective)
  | done (result : Except RegistryError Unit)
  | released (result : Except RegistryError ReleaseAction)
  | disconnected (activationId : Option String)
  | cancellation (result : Except RegistryError ActivationCancellation)
  | expired (activations : List (Fingerprint × String))
  | failed (result : Except RegistryError WorkerFailureAction)
  | drained (result : Except RegistryError DrainCompletion)
  | permitted (result : Except RegistryError RecoveryPermit)
  | recovered (result : Except RegistryError (Option String))
  | progress (elapsedMs : List (Fingerprint × Nat))
  | candidates (sessions : List (Fingerprint × McpSessionId))
  | resolved (result : Except ResolveError ResolvedTarget)
  | unit

/-- The registry, the shared cells of the workers, and the accepted requests not yet dropped. -/
structure BrokerState where
  inner : RegistryInner
  cells : WorkerCells
  requests : List WorkerRequest

def BrokerState.initial : BrokerState := ⟨.empty, WorkerTarget.initialCells, []⟩

/-- The request a caller starts to own, if it was given a worker. -/
def acquired : Except ResolveError ResolvedTarget → List WorkerRequest
  | .ok (.worker request) => [request]
  | _ => []

namespace Registry

/-- A method that changes only what the lock protects. -/
def locked {α : Type} (state : BrokerState) (reply : α → RegistryReply)
    (result : α × RegistryInner) : RegistryReply × BrokerState :=
  (reply result.1, { state with inner := result.2 })

def step (state : BrokerState) : RegistryOp → RegistryReply × BrokerState
  | .registerMcp registration plan order instant =>
    locked state .directive
      (registry.registerMcp state.inner state.cells registration plan order instant)
  | .renewMcp fingerprint sessionId leaseExpiresAtUnixMs =>
    locked state .done <| state.inner.onRoute fingerprint fun route =>
      route.renewMcp sessionId leaseExpiresAtUnixMs
  | .currentDirective fingerprint sessionId =>
    locked state .directive
      (state.inner.currentDirective state.cells fingerprint sessionId registry.retryAfterMs)
  | .currentDirectiveExclusive fingerprint sessionId =>
    locked state .directive
      (state.inner.currentDirectiveExclusive state.cells fingerprint sessionId
        registry.retryAfterMs)
  | .releaseMcp fingerprint sessionId drainDeadlineUnixMs =>
    locked state .released (state.inner.releaseMcp fingerprint sessionId drainDeadlineUnixMs)
  | .mcpConnected fingerprint sessionId =>
    (.unit, { state with inner := state.inner.mcpConnected fingerprint sessionId })
  | .mcpDisconnected fingerprint sessionId =>
    locked state .disconnected (state.inner.mcpDisconnected fingerprint sessionId)
  | .cancelActivation fingerprint sessionId activationId clock =>
    locked state .cancellation <| state.inner.onRoute fingerprint fun route =>
      route.cancelActivation sessionId activationId clock
  | .markWorkerReady fingerprint activationId target now =>
    locked state .done <| state.inner.onRoute fingerprint fun route =>
      route.markWorkerReady activationId target now
  | .markActivationFailed fingerprint activationId now =>
    locked state .done <| state.inner.onRoute fingerprint fun route =>
      route.markActivationFailed activationId now
  | .expireActivations now order => locked state .expired (state.inner.expireActivations now order)
  | .markWorkerCommunicationFailed fingerprint workerId =>
    let (reply, cells) :=
      state.inner.markWorkerCommunicationFailed state.cells fingerprint workerId
    (.recovered reply, { state with cells := cells })
  | .workerFailed fingerprint workerId recoveryDeadlineUnixMs =>
    locked state .failed (state.inner.workerFailed fingerprint workerId recoveryDeadlineUnixMs)
  | .beginRelaunch fingerprint sessionId plan instant =>
    locked state .directive <| state.inner.onRoute fingerprint fun route =>
      route.beginRelaunch sessionId plan instant
  | .finishDrainingWorker fingerprint workerId now =>
    locked state .drained <| state.inner.onRoute fingerprint fun route =>
      route.finishDrainingWorker workerId now state.cells
  | .authorizeWorkerRecovery fingerprint workerId =>
    (.permitted (state.inner.authorizeWorkerRecovery fingerprint workerId), state)
  | .publishRecoveredWorker fingerprint permit launchActivationId target now =>
    locked state .recovered <| state.inner.onRoute fingerprint fun route =>
      route.publishRecoveredWorker permit launchActivationId target now
  | .markRecoveryFailed fingerprint permit now =>
    let (reply, inner, cells) :=
      state.inner.markRecoveryFailed state.cells fingerprint permit now
    (.recovered reply, { state with inner := inner, cells := cells })
  | .activationProgress instant order =>
    locked state .progress (state.inner.activationProgress instant order)
  | .activationCandidates now order =>
    (.candidates (state.inner.activationCandidates now order), state)
  | .resolveTarget tokenDigest =>
    let (reply, cells) :=
      state.inner.resolveTarget state.cells registry.requireWorker tokenDigest
    (.resolved reply, { state with cells := cells, requests := state.requests ++ acquired reply })
  | .dropRequest index =>
    match state.requests[index]? with
    | none => (.unit, state)
    | some request =>
      (.unit,
        { state with
          cells := request.drop state.cells
          requests := state.requests.eraseIdx index })
  | .setControlAvailable target available =>
    (.unit, { state with cells := target.setControlAvailable available state.cells })

def machine : Machine BrokerState RegistryOp RegistryReply :=
  ⟨registry.step⟩

end Registry

end NemoRelay.Broker
