import NemoRelay.Optimization.Summary
import NemoRelay.Runtime.Propagation

/-!
# Lifecycle events

The events that the exporters read: the start and the end of a scope, and marks. An exporter sees
them through a host that normalizes the payloads of providers.

The texts that libraries write and read are gathered in `Texts`.
-/

namespace NemoRelay

/-- The texts of values. -/
class Texts where
  jsonToString : Json → String
  parseJson : String → Option Json
  rfc3339 : Int → String
  uuidText : Uuid → String
  parseUuid : String → Option Uuid
  parseUuid_uuidText : ∀ uuid, parseUuid (uuidText uuid) = some uuid

export Texts (jsonToString parseJson rfc3339 uuidText parseUuid)

/-- Identifiers in the order of their values; maps from them are sorted. -/
instance : LinearOrder Uuid where
  le_refl uuid := Nat.le_refl uuid.toNat
  le_trans _ _ _ := Nat.le_trans
  le_antisymm _ _ h h' := BitVec.eq_of_toNat_eq (Nat.le_antisymm h h')
  le_total uuid uuid' := Nat.le_total uuid.toNat uuid'.toNat
  lt_iff_le_not_ge uuid uuid' := Nat.lt_iff_le_and_not_ge (m := uuid.toNat) (n := uuid'.toNat)
  toDecidableLE := inferInstance

namespace Observability

/-! ### Events -/

inductive ScopeCategory
  | start
  | finish
  deriving DecidableEq

structure BaseEvent where
  uuid : Uuid
  parentUuid : Option Uuid
  timestamp : Int
  name : String
  data : Option Json
  metadata : Option Json

structure CategoryProfile where
  modelName : Option String
  toolCallId : Option String
  annotatedToolResult : Option Json
  annotatedRequest : Option AnnotatedLlmRequest
  annotatedResponse : Option AnnotatedLlmResponse

inductive Event
  | scope (base : BaseEvent) (scopeCategory : ScopeCategory) (category : String)
      (profile : Option CategoryProfile)
  | mark (base : BaseEvent) (category : Option String) (profile : Option CategoryProfile)

namespace Event

def base : Event → BaseEvent
  | scope base .. | mark base .. => base

def scopeCategory : Event → Option ScopeCategory
  | scope _ scopeCategory .. => some scopeCategory
  | mark .. => none

def category : Event → Option String
  | scope _ _ category _ => some category
  | mark _ category _ => category

def categoryProfile : Event → Option CategoryProfile
  | scope _ _ _ profile | mark _ _ profile => profile

variable (event : Event)

def uuid (event : Event) : Uuid := event.base.uuid

def parentUuid (event : Event) : Option Uuid := event.base.parentUuid

def timestamp (event : Event) : Int := event.base.timestamp

def name (event : Event) : String := event.base.name

def data (event : Event) : Option Json := event.base.data

def metadata (event : Event) : Option Json := event.base.metadata

def input : Option Json :=
  if event.scopeCategory = some .start then event.data else none

def output : Option Json :=
  if event.scopeCategory = some .finish then event.data else none

def modelName (event : Event) : Option String := event.categoryProfile.bind (·.modelName)

def toolCallId (event : Event) : Option String := event.categoryProfile.bind (·.toolCallId)

def annotatedRequest (event : Event) : Option AnnotatedLlmRequest :=
  event.categoryProfile.bind (·.annotatedRequest)

def annotatedResponse (event : Event) : Option AnnotatedLlmResponse :=
  event.categoryProfile.bind (·.annotatedResponse)

/-- The kind and the two categories of a scope event; the exporters dispatch on them. -/
def HasSignature (scopeCategory : ScopeCategory) (category : String) (event : Event) : Prop :=
  event.scopeCategory = some scopeCategory ∧ event.category = some category

instance (scopeCategory : ScopeCategory) (category : String) (event : Event) :
    Decidable (event.HasSignature scopeCategory category) :=
  inferInstanceAs (Decidable (_ ∧ _))

def isStartEvent : Bool := event.scopeCategory = some .start

def isLlmEvent : Bool := event.category = some "llm"

end Event

/-! ### The host -/

structure TelemetryToolCall where
  id : String
  name : String
  arguments : Json
  extra : Option Json

/-- Provider normalization and prices, as the embedding runtime supplies them. -/
class ObservabilityHost where
  normalizeRequest : LlmRequest → Option String → Option AnnotatedLlmRequest
  normalizeResponse : Json → Option AnnotatedLlmResponse
  telemetryToolCalls : Option AnnotatedLlmResponse → Option Json → Option (List TelemetryToolCall)
  pricingSnapshot : CostEstimator

/-- `serde_json::from_value` into a request, which may also be written as an array of its fields. -/
def readLlmRequest : Json → Option LlmRequest
  | .arr [.obj headers, content] => some ⟨headers, content⟩
  | value => do
    let headers ← (value.get "headers").bind Json.asObject
    let content ← value.get "content"
    return ⟨headers, content⟩

section Host

variable [ObservabilityHost]

namespace Event

def normalizedLlmRequest (event : Event) : Option AnnotatedLlmRequest :=
  event.annotatedRequest.or do
    let request ← readLlmRequest (← event.input)
    ObservabilityHost.normalizeRequest request (some event.name)

def normalizedLlmResponse (event : Event) : Option AnnotatedLlmResponse :=
  event.annotatedResponse.or (event.output.bind ObservabilityHost.normalizeResponse)

def telemetryLlmToolCalls (event : Event) : Option (List TelemetryToolCall) :=
  ObservabilityHost.telemetryToolCalls event.annotatedResponse event.output

end Event

def modelNameFromManualLlmOutput (output : Option Json) : Option String :=
  (output.bind (·.get "model")).bind Json.asStr

def modelNameForLlmEvent (event : Event) : Option String :=
  if !event.isLlmEvent then none
  else
    (event.normalizedLlmResponse.bind (·.model)).or <|
      (modelNameFromManualLlmOutput event.output).or <|
        event.modelName.or <|
          (event.normalizedLlmRequest.bind (·.model)).or <|
            modelNameFromManualLlmOutput event.input

end Host

end Observability

end NemoRelay
