import NemoRelay.Lib.OrderedMap
import Mathlib.Data.String.Basic

/-!
# Broker: workers, requests and route states

The values the broker's registry works on. A worker target is shared: the registry, every accepted
request and the control sockets hold the same object, and only its two atomic cells change. The
model names the object by its address and keeps the cells of all targets in one function.
-/

namespace NemoRelay.Broker

/-- The digest of a public key; it identifies one machine user and keys the routes. -/
structure Fingerprint where
  bits : BitVec 256

/-- The digest of a route token. -/
structure TokenDigest where
  bits : BitVec 256

theorem Fingerprint.toNat_injective :
    Function.Injective fun fingerprint : Fingerprint => fingerprint.bits.toNat := by
  rintro ⟨a⟩ ⟨b⟩ h
  exact congrArg Fingerprint.mk (BitVec.eq_of_toNat_eq h)

theorem TokenDigest.toNat_injective :
    Function.Injective fun digest : TokenDigest => digest.bits.toNat := by
  rintro ⟨a⟩ ⟨b⟩ h
  exact congrArg TokenDigest.mk (BitVec.eq_of_toNat_eq h)

-- The registry only hashes the digests; the order is that of the maps of the model.
instance : LinearOrder Fingerprint := LinearOrder.lift' _ Fingerprint.toNat_injective

instance : LinearOrder TokenDigest := LinearOrder.lift' _ TokenDigest.toNat_injective

/-- The identity of one connected MCP process; it is never empty. -/
abbrev McpSessionId := { value : String // value ≠ "" }

theorem mcp_ne_empty : "mcp" ≠ "" := by decide

/-- An immutable destination for one registered worker generation. -/
structure WorkerTarget where
  address : Nat
  workerId : String
  endpoint : String
  deriving DecidableEq

/-- What changes in a shared worker target. -/
structure WorkerCell where
  inFlight : Nat
  controlAvailable : Bool

/-- The cells of the worker targets, by address. -/
abbrev WorkerCells := Nat → WorkerCell

namespace WorkerTarget

/-- The cells of targets that no one has used. -/
def initialCells : WorkerCells := fun _ => ⟨0, true⟩

def controlAvailable (target : WorkerTarget) (cells : WorkerCells) : Bool :=
  (cells target.address).controlAvailable

def setControlAvailable (target : WorkerTarget) (available : Bool) (cells : WorkerCells) :
    WorkerCells :=
  Function.update cells target.address { cells target.address with controlAvailable := available }

/-- The number of requests accepted by the broker and not yet dropped. -/
def inFlight (target : WorkerTarget) (cells : WorkerCells) : Nat := (cells target.address).inFlight

end WorkerTarget

/-- An accepted request's ownership of one worker target. -/
structure WorkerRequest where
  fingerprint : Fingerprint
  target : WorkerTarget

def WorkerTarget.acquire (target : WorkerTarget) (fingerprint : Fingerprint) (cells : WorkerCells) :
    WorkerRequest × WorkerCells :=
  (⟨fingerprint, target⟩,
    Function.update cells target.address
      { cells target.address with inFlight := (cells target.address).inFlight + 1 })

/-- The effect of dropping a request. -/
def WorkerRequest.drop (request : WorkerRequest) (cells : WorkerCells) : WorkerCells :=
  Function.update cells request.target.address
    { cells request.target.address with
      inFlight := (cells request.target.address).inFlight - 1 }

/-- A daemon-issued plan for launching one worker. -/
structure WorkerLaunch where
  activationId : String
  activationToken : String
  deadlineUnixMs : Nat
  bindIp : BitVec 32
  port : UInt16
  advertiseAddress : Option String
  deriving DecidableEq

/-- The daemon's instruction for an MCP session. A launch directive has the fields of its plan. -/
inductive BrokerDirective
  | reuseWorker (endpoint : String)
  | waitForWorker (retryAfterMs : Nat)
  | launchWorker (launch : WorkerLaunch)
  | usePassThrough

inductive RouteStateKind
  | empty
  | activating
  | ready
  | draining
  | passThrough
  | recovering

inductive RouteState
  | empty
  | activating (owner : McpSessionId) (launch : WorkerLaunch)
  | ready (target : WorkerTarget)
  | draining (target : WorkerTarget) (deadlineUnixMs : Nat)
  | passThrough (permanent : Bool)
  | recovering (target : Option WorkerTarget) (owner : Option McpSessionId) (deadlineUnixMs : Nat)
  deriving DecidableEq

def RouteState.kind : RouteState → RouteStateKind
  | .empty => .empty
  | .activating _ _ => .activating
  | .ready _ => .ready
  | .draining _ _ => .draining
  | .passThrough _ => .passThrough
  | .recovering _ _ _ => .recovering

/-- A route destination resolved before any request body is read. -/
inductive ResolvedTarget
  | worker (request : WorkerRequest)
  | passThrough

inductive ResolveError
  | unknownToken
  | unavailable (kind : RouteStateKind)

inductive ActivationCancellation
  | cancelled
  | published
  | superseded

/-- Work required after an MCP reference is released. -/
inductive ReleaseAction
  | noChange
  | cancelActivation (activationId : String)
  | beginDrain (target : WorkerTarget) (deadlineUnixMs : Nat)

/-- Work required after a ready worker disconnects. -/
inductive WorkerFailureAction
  | alreadyRemoved
  | superseded
  | draining
  | nominateMcp (sessionId : McpSessionId)
  | routeEmpty

/-- The route generation that is authorized to attempt worker recovery. -/
inductive RecoveryPermit
  | activating (activationId : String)
  | existingWorker (workerId : String) (recovering : Bool)

/-- The result of completing a worker drain. -/
inductive DrainCompletion
  | alreadyRemoved
  | superseded
  | routeEmpty
  | activationRequired (sessionId : McpSessionId)

inductive RegistryError
  | tokenAlreadyBound
  | routeTokenLimitReached
  | unknownRoute
  | routeCapacityReached
  | unknownMcpSession
  | mcpReferenceCapacityReached
  | noLiveMcpReferences
  | activationMismatch
  | workerMismatch
  | notLaunchOwner
  | recoveryNotAuthorized
  | recoveryGenerationChanged
  | invalidState (expected actual : RouteStateKind)
  | drainInProgress

end NemoRelay.Broker
