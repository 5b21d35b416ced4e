import NemoRelay.Adaptive.Canonical
import NemoRelay.Observability.Event

/-!
# An exporter without a runtime

A detached exporter has no provider codecs: it reads raw payloads. `plainTexts` writes values so
that they can be told apart, and identifiers in hexadecimal.
-/

namespace NemoRelay.Observability

/-- Nothing is normalized, and no model has a price. -/
@[reducible] def detachedHost : ObservabilityHost where
  normalizeRequest _ _ := none
  normalizeResponse _ := none
  telemetryToolCalls _ _ := none
  pricingSnapshot _ _ _ := none

@[reducible] def plainTexts : Texts where
  jsonToString value := String.ofList (Acg.plainText value)
  parseJson _ := none
  rfc3339 timestamp := toString timestamp
  uuidText uuid := String.ofList (Hex.digits 32 uuid.toNat)
  parseUuid text := (Hex.read 0 text.toList).map (BitVec.ofNat 128)
  parseUuid_uuidText := by
    intro uuid
    have hlt : uuid.toNat < 16 ^ 32 := lt_of_lt_of_le uuid.isLt (by decide)
    rw [String.toList_ofList, Hex.read_digits_of_lt hlt, Option.map_some, BitVec.ofNat_toNat,
      BitVec.setWidth_eq]

@[reducible] def noAmounts : Amounts where
  add _ _ := .zero
  sub _ _ := .zero

/-! ### Events without a profile -/

def llmEvent (scopeCategory : ScopeCategory) (uuid : Uuid) (parentUuid : Option Uuid)
    (timestamp : Int) (data : Json) (metadata : Option Json) : Event :=
  .scope ⟨uuid, parentUuid, timestamp, "llm", some data, metadata⟩ scopeCategory "llm" none

def toolEvent (scopeCategory : ScopeCategory) (uuid : Uuid) (timestamp : Int) (name : String)
    (data : Json) (toolCallId : Option String) : Event :=
  .scope ⟨uuid, none, timestamp, name, some data, none⟩ scopeCategory "tool"
    (some ⟨none, toolCallId, none, none, none⟩)

/-! ### Metadata of a report -/

def projection : Json := .obj [("projection", .bool true)]

def exactPayload : Json := .obj [("provider_payload_exact", .bool true)]

def inexactPayload : Json := .obj [("provider_payload_exact", .bool false)]

end NemoRelay.Observability
