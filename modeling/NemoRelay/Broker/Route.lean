import NemoRelay.Broker.Lifecycle

/-!
# Broker: one route

A route is what the registry knows of one machine user: the tokens bound to it, the MCP sessions
that refer to it, and the lifecycle state of its worker. Each method of the registry that concerns
one route is modelled here as a function of the route, which gives the reply and the route after.

The clock is an argument wherever the source reads it. Times on the wall clock are in milliseconds
and saturate at `2 ^ 64 - 1`; instants of the monotonic clock are in nanoseconds.
-/

namespace NemoRelay.Broker

def publishedActivationCapacity : Nat := 32

def publishedActivationRetentionMs : Nat := 300000

def saturatingAdd (bits a b : Nat) : Nat := min (a + b) (2 ^ bits - 1)

def activationRetryDelay (attempts : Nat) : Nat :=
  min (1000 * 2 ^ min (attempts - 1) 6) 60000

structure RouteEntry where
  /-- Every token bound to this route, the least recently registered one first. -/
  tokenDigests : List TokenDigest
  refs : OrderedMap McpSessionId Nat
  /-- The token each referring session registered with. -/
  refTokens : OrderedMap McpSessionId TokenDigest
  connected : OrderedMap McpSessionId Unit
  attempts : Nat
  retryAtUnixMs : Nat
  activationStarted : Option Nat
  lastStartupProgress : Option Nat
  publishedActivations : List (String × Nat)
  publishedActivation : Option String
  removedWorker : Option String
  state : RouteState

namespace RouteEntry

def new (globalPassThrough : Bool) : RouteEntry where
  tokenDigests := []
  refs := .empty
  refTokens := .empty
  connected := .empty
  attempts := 0
  retryAtUnixMs := 0
  activationStarted := none
  lastStartupProgress := none
  publishedActivations := []
  publishedActivation := none
  removedWorker := none
  state := if globalPassThrough then .passThrough true else .empty

variable (route : RouteEntry)

def recordPublishedActivation (activationId : String) (now : Nat) : RouteEntry :=
  let kept := route.publishedActivations.filter fun entry => now < entry.2
  let kept := if publishedActivationCapacity ≤ kept.length then kept.tail else kept
  { route with
    publishedActivations :=
      kept ++ [(activationId, saturatingAdd 64 now publishedActivationRetentionMs)]
    publishedActivation := some activationId
    attempts := 0
    retryAtUnixMs := 0 }

variable (sessionId : McpSessionId)

/-- Installs an activation plan. -/
def launch (plan : WorkerLaunch) (instant : Nat) : RouteEntry :=
  { route with
    attempts := saturatingAdd 32 route.attempts 1
    activationStarted := some instant
    lastStartupProgress := none
    state := .activating sessionId plan }

/-- The state of a route whose activation has ended without a worker. -/
def stateWithoutActivation : RouteState :=
  if route.refs.isEmpty then .empty else .passThrough false

def retryDelayed (now : Nat) : Nat :=
  saturatingAdd 64 now (activationRetryDelay route.attempts)

/-- The first connected session with a live reference. -/
def firstConnected : Option McpSessionId :=
  route.connected.keys.find? fun sessionId => route.refs.contains sessionId

def isLaunchable : Bool :=
  match route.state with
  | .empty | .passThrough false | .recovering none _ _ => true
  | _ => false

section Directives

variable (route : RouteEntry) (cells : WorkerCells) (sessionId : McpSessionId) (retryAfterMs : Nat)

/-- The decision for a session; only what an empty route answers differs between the callers. -/
def directive (whenEmpty : BrokerDirective × RouteEntry) : BrokerDirective × RouteEntry :=
  match route.state with
  | .empty => whenEmpty
  | .activating owner activeLaunch =>
    if owner = sessionId then (.launchWorker activeLaunch, route)
    else (.waitForWorker retryAfterMs, route)
  | .draining _ _ => (.waitForWorker retryAfterMs, route)
  | .recovering none _ _ => (.waitForWorker retryAfterMs, route)
  | .ready target =>
    if target.controlAvailable cells then (.reuseWorker target.endpoint, route)
    else (.waitForWorker retryAfterMs, route)
  | .passThrough _ => (.usePassThrough, route)
  | .recovering (some target) _ _ =>
    (.reuseWorker target.endpoint, { route with state := .ready target })

def directiveFor (plan : WorkerLaunch) (instant : Nat) : BrokerDirective × RouteEntry :=
  route.directive cells sessionId retryAfterMs
    (.launchWorker plan, route.launch sessionId plan instant)

def currentDirective : BrokerDirective × RouteEntry :=
  route.directive cells sessionId retryAfterMs (.waitForWorker retryAfterMs, route)

/-- The decision under the shared lock; a recovering route with a worker has to be changed first. -/
def stableCurrentDirective : Option BrokerDirective :=
  match route.state with
  | .recovering (some _) _ _ => none
  | _ => some (route.currentDirective cells sessionId retryAfterMs).1

end Directives

def transferOwnerIfNeeded (removedSession : McpSessionId) : ReleaseAction × RouteEntry :=
  match route.state with
  | .activating owner plan =>
    if owner = removedSession then
      (.cancelActivation plan.activationId,
        { route with
          state := .passThrough false
          retryAtUnixMs := 0 })
    else (.noChange, route)
  | _ => (.noChange, route)

def afterReferenceRemoved (removedSession : McpSessionId) (drainDeadlineUnixMs : Nat) :
    ReleaseAction × RouteEntry :=
  if route.refs.isEmpty then
    match route.state with
    | .activating _ plan => (.cancelActivation plan.activationId, { route with state := .empty })
    | .ready target | .recovering (some target) _ _ =>
      (.beginDrain target drainDeadlineUnixMs,
        { route with state := .draining target drainDeadlineUnixMs })
    | .passThrough true => (.noChange, route)
    | .draining _ _ => (.noChange, route)
    | .empty | .passThrough false | .recovering none _ _ =>
      (.noChange, { route with state := .empty })
  else route.transferOwnerIfNeeded removedSession

/-! ## Sessions -/

/-- Connection eligibility is independent of retained references. -/
def mcpConnected : RouteEntry :=
  if route.refs.contains sessionId then
    { route with connected := route.connected.insert sessionId () }
  else route

def mcpDisconnected : Option String × RouteEntry :=
  let route := { route with connected := route.connected.erase sessionId }
  match route.state with
  | .activating owner plan =>
    if owner = sessionId then
      (some plan.activationId,
        { route with
          state := .passThrough false
          retryAtUnixMs := 0 })
    else (none, route)
  | _ => (none, route)

def renewMcp (leaseExpiresAtUnixMs : Nat) : Except RegistryError Unit × RouteEntry :=
  if route.refs.contains sessionId then
    (.ok (), { route with refs := route.refs.insert sessionId leaseExpiresAtUnixMs })
  else (.error .unknownMcpSession, route)

def releaseMcp (drainDeadlineUnixMs : Nat) : ReleaseAction × RouteEntry :=
  let removed :=
    { route with
      connected := route.connected.erase sessionId
      refTokens := route.refTokens.erase sessionId
      refs := route.refs.erase sessionId }
  if route.refs.contains sessionId then removed.afterReferenceRemoved sessionId drainDeadlineUnixMs
  else (.noChange, removed)

/-! ## Activations -/

/-- The clock is read again for every recorded publication; `clock i` is the reading at the
`i`-th one. -/
def cancelActivation (activationId : String) (clock : Nat → Nat) :
    Except RegistryError ActivationCancellation × RouteEntry :=
  if route.publishedActivation = some activationId ∨
      route.publishedActivations.zipIdx.any fun entry =>
        entry.1.1 = activationId ∧ clock entry.2 < entry.1.2 then
    (.ok .published, route)
  else
    match route.state with
    | .activating owner plan =>
      if plan.activationId = activationId then
        if owner = sessionId then
          (.ok .cancelled,
            { route with
              state := route.stateWithoutActivation
              retryAtUnixMs := 0 })
        else (.error .notLaunchOwner, route)
      else (.ok .superseded, route)
    | _ => (.ok .superseded, route)

def markWorkerReady (activationId : String) (target : WorkerTarget) (now : Nat) :
    Except RegistryError Unit × RouteEntry :=
  if route.refs.isEmpty then (.error .noLiveMcpReferences, route)
  else
    match route.state with
    | .activating _ plan =>
      if plan.activationId = activationId then
        (.ok (), { route.recordPublishedActivation activationId now with state := .ready target })
      else (.error .activationMismatch, route)
    | state => (.error (.invalidState .activating state.kind), route)

def markActivationFailed (activationId : String) (now : Nat) :
    Except RegistryError Unit × RouteEntry :=
  match route.state with
  | .activating _ plan =>
    if plan.activationId = activationId then
      (.ok (),
        { route with
          retryAtUnixMs := route.retryDelayed now
          state := route.stateWithoutActivation })
    else (.error .activationMismatch, route)
  | state => (.error (.invalidState .activating state.kind), route)

/-- The part of `expire_activations` that concerns one route. -/
def expireActivation (now : Nat) : Option String × RouteEntry :=
  match route.state with
  | .activating _ plan =>
    if plan.deadlineUnixMs ≤ now then
      (some plan.activationId,
        { route with
          state := route.stateWithoutActivation
          retryAtUnixMs := route.retryDelayed now })
    else (none, route)
  | _ => (none, route)

/-- The part of `activation_progress` that concerns one route. -/
def activationProgress (instant : Nat) : Option Nat × RouteEntry :=
  match route.activationStarted, route.state with
  | some started, .activating _ _ =>
    if 60 ≤ (instant - route.lastStartupProgress.getD started) / 10 ^ 9 then
      (some ((instant - started) / 10 ^ 6), { route with lastStartupProgress := some instant })
    else (none, route)
  | _, _ => (none, route)

def beginRelaunch (plan : WorkerLaunch) (instant : Nat) :
    Except RegistryError BrokerDirective × RouteEntry :=
  if !route.connected.contains sessionId || !route.refs.contains sessionId then
    (.error .notLaunchOwner, route)
  else if !route.isLaunchable then (.error (.invalidState .recovering route.state.kind), route)
  else
    match route.state with
    | .recovering _ (some owner) _ =>
      if owner ≠ sessionId ∧ route.connected.contains owner then (.error .notLaunchOwner, route)
      else (.ok (.launchWorker plan), route.launch sessionId plan instant)
    | _ => (.ok (.launchWorker plan), route.launch sessionId plan instant)

/-! ## Workers -/

variable (workerId : String)

def markWorkerCommunicationFailed (cells : WorkerCells) :
    Except RegistryError (Option String) × WorkerCells :=
  match route.state with
  | .ready target | .recovering (some target) _ _ =>
    if target.workerId = workerId then (.ok none, target.setControlAvailable false cells)
    else (.error .workerMismatch, cells)
  | .draining target _ =>
    if target.workerId = workerId then (.error (.invalidState .ready .draining), cells)
    else (.error .workerMismatch, cells)
  | _ => (.error .workerMismatch, cells)

def workerFailed (recoveryDeadlineUnixMs : Nat) : WorkerFailureAction × RouteEntry :=
  let otherwise :=
    if route.removedWorker = some workerId then WorkerFailureAction.alreadyRemoved else .superseded
  match route.state with
  | .ready target | .recovering (some target) _ _ =>
    if target.workerId = workerId then
      let owner := route.firstConnected
      (match owner with
        | some sessionId => .nominateMcp sessionId
        | none => .routeEmpty,
        { route with
          removedWorker := some workerId
          publishedActivation := none
          attempts := 0
          retryAtUnixMs := 0
          state :=
            if route.refs.isEmpty then .empty else .recovering none owner recoveryDeadlineUnixMs })
    else (otherwise, route)
  | .draining target _ =>
    if target.workerId = workerId then (.draining, route) else (otherwise, route)
  | _ => (otherwise, route)

def finishDrainingWorker (now : Nat) (cells : WorkerCells) :
    Except RegistryError DrainCompletion × RouteEntry :=
  let otherwise :=
    if route.removedWorker = some workerId then DrainCompletion.alreadyRemoved else .superseded
  match route.state with
  | .draining target deadlineUnixMs =>
    if target.workerId = workerId then
      if target.inFlight cells ≠ 0 ∧ now < deadlineUnixMs then (.error .drainInProgress, route)
      else
        (.ok (match route.refs.keys.head? with
          | some sessionId => .activationRequired sessionId
          | none => .routeEmpty),
          { route with
            removedWorker := some workerId
            publishedActivation := none
            state := .empty })
    else (.ok otherwise, route)
  | _ => (.ok otherwise, route)

/-! ## Recovery -/

def authorizeWorkerRecovery : Except RegistryError RecoveryPermit :=
  if route.refs.isEmpty then .error .noLiveMcpReferences
  else
    match route.state with
    | .activating _ plan => .ok (.activating plan.activationId)
    | .ready target =>
      if target.workerId = workerId then .ok (.existingWorker workerId false)
      else .error .recoveryNotAuthorized
    | .recovering (some target) _ _ =>
      if target.workerId = workerId then .ok (.existingWorker workerId true)
      else .error .recoveryNotAuthorized
    | _ => .error .recoveryNotAuthorized

variable (permit : RecoveryPermit)

/-- The activation that a permit takes over, if the route is still in the generation it names. -/
def canceledActivation : Option (Option String) :=
  match route.state, permit with
  | .activating _ plan, .activating activationId =>
    if plan.activationId = activationId then some (some activationId) else none
  | .ready target, .existingWorker workerId false =>
    if target.workerId = workerId then some none else none
  | .recovering (some target) _ _, .existingWorker workerId true =>
    if target.workerId = workerId then some none else none
  | _, _ => none

def publishRecoveredWorker (launchActivationId : Option String) (target : WorkerTarget) (now : Nat)
    : Except RegistryError (Option String) × RouteEntry :=
  if route.refs.isEmpty then (.error .noLiveMcpReferences, route)
  else
    match route.canceledActivation permit with
    | none => (.error .recoveryGenerationChanged, route)
    | some canceled =>
      let route :=
        match launchActivationId with
        | some activationId => route.recordPublishedActivation activationId now
        | none => route
      (.ok canceled, { route with state := .ready target })

def markRecoveryFailed (now : Nat) (cells : WorkerCells) :
    Except RegistryError (Option String) × RouteEntry × WorkerCells :=
  match route.state, permit with
  | .activating _ plan, .activating activationId =>
    if plan.activationId = activationId then
      (.ok (some activationId),
        { route with
          retryAtUnixMs := route.retryDelayed now
          state := route.stateWithoutActivation },
        cells)
    else (.error .recoveryGenerationChanged, route, cells)
  | .ready target, .existingWorker workerId _
  | .recovering (some target) _ _, .existingWorker workerId _ =>
    if target.workerId = workerId then (.ok none, route, target.setControlAvailable false cells)
    else (.error .recoveryGenerationChanged, route, cells)
  | _, _ => (.error .recoveryGenerationChanged, route, cells)

end RouteEntry

end NemoRelay.Broker
