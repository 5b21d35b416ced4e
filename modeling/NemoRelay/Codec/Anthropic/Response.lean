import NemoRelay.Codec.Fields
import NemoRelay.Codec.Response

/-!
# Decoded Anthropic responses

`anthropic.rs`: the normalized form of a Messages response. The texts of the text blocks are joined
by line feeds, and the tool calls are those of the complete tool blocks.

What the token counts of a response are read as is an argument: nothing here looks at them.
-/

namespace NemoRelay.AnthropicMessagesCodec

open FieldFormat SortedMap

def blockType (block : Json) : Option String := (block.get "type").bind Json.asStr

/-! ### Content blocks -/

def anthropicTextBlock (block : Json) : Option String :=
  if blockType block = some "text" then (block.get "text").bind Json.asStr else none

def joinLines (texts : List String) : String := "\n".intercalate texts

def anthropicTextMessage (contentBlocks : Option (List Json)) : Option MessageContent :=
  let textParts := (contentBlocks.getD []).filterMap anthropicTextBlock
  if textParts = [] then none else some (.text (joinLines textParts))

def anthropicToolCallBlock (block : Json) : Option ResponseToolCall :=
  if blockType block = some "tool_use" then do
    let id ← (block.get "id").bind Json.asStr
    let name ← (block.get "name").bind Json.asStr
    let arguments ← block.get "input"
    return { id, name, arguments }
  else none

def anthropicToolCalls (contentBlocks : Option (List Json)) : Option (List ResponseToolCall) :=
  let toolCalls := (contentBlocks.getD []).filterMap anthropicToolCallBlock
  if toolCalls = [] then none else some toolCalls

/-! ### Responses -/

def mapAnthropicStopReason : String → FinishReason
  | "end_turn" => .complete
  | "max_tokens" => .length
  | "tool_use" => .toolUse
  | other => .unknown other

/-- The members that a response has fields for. -/
def rawResponseKeys : List String :=
  ["id", "type", "role", "model", "content", "stop_reason", "stop_sequence", "service_tier",
    "container", "usage"]

/-- A value that may be anything but null. -/
def nonNull (member : Option Json) : Option Json := member.filter fun value => !value.isNull

section Decode

variable (readUsage : Json → Option Usage)

/-- `none` if a member is not of its type. -/
def decodeResponseObject (obj : Object) : Option AnnotatedLlmResponse := do
  let string := fun key => string.readOptional (get obj key)
  let id ← string "id"
  let objectType ← string "type"
  let role ← string "role"
  let model ← string "model"
  let stopReason ← string "stop_reason"
  let stopSequence ← string "stop_sequence"
  let serviceTier ← string "service_tier"
  let usage ← (nonNull (get obj "usage")).mapM readUsage
  let contentBlocks ← items.readOptional (get obj "content")
  return {
    id
    model
    message := anthropicTextMessage contentBlocks
    toolCalls := anthropicToolCalls contentBlocks
    finishReason := stopReason.map mapAnthropicStopReason
    usage
    optimizationSummary := none
    apiSpecific := some (.anthropicMessages {
      objectType, role, stopReason, stopSequence, serviceTier
      container := nonNull (get obj "container")
      contentBlocks })
    extra := otherKeys obj rawResponseKeys }

def decodeResponse [ErrorTexts] (response : Json) : Except FlowError AnnotatedLlmResponse :=
  match response.asObject.bind (decodeResponseObject readUsage) with
  | some annotated => .ok annotated
  | none => .error (.internal ("Anthropic Messages response decode: " ++
      ErrorTexts.mismatch response "RawAnthropicResponse"))

/-- What the members of a response that can be redacted are decoded from. -/
structure DecodesResponse (obj : Object) (annotated : AnnotatedLlmResponse) : Prop where
  id : string.Reads (get obj "id") annotated.id
  model : string.Reads (get obj "model") annotated.model
  stopReason : ∃ stopReason, string.Reads (get obj "stop_reason") stopReason ∧
    annotated.finishReason = stopReason.map mapAnthropicStopReason
  content : ∃ blocks, items.Reads (get obj "content") blocks ∧
    annotated.message = anthropicTextMessage blocks ∧
    annotated.toolCalls = anthropicToolCalls blocks
  summary : annotated.optimizationSummary = none
  extra : annotated.extra = otherKeys obj rawResponseKeys

theorem decodesResponse_of_decode [ErrorTexts] {obj : Object} {annotated : AnnotatedLlmResponse}
    (h : decodeResponse readUsage (.obj obj) = .ok annotated) : DecodesResponse obj annotated := by
  unfold decodeResponse at h
  split at h
  · next decoded hdecoded =>
    cases h
    simp only [Json.asObject, Option.bind_some, decodeResponseObject, Option.bind_eq_bind,
      Option.bind_eq_some_iff, readOptional_eq_some] at hdecoded
    obtain ⟨id, hid, _, -, _, -, model, hmodel, stopReason, hstop, _, -, _, -, _, -, blocks,
      hblocks, hdecoded⟩ := hdecoded
    cases hdecoded
    exact ⟨hid, hmodel, ⟨stopReason, hstop, rfl⟩, ⟨blocks, hblocks, rfl, rfl⟩, rfl, rfl⟩
  · cases h

end Decode

end NemoRelay.AnthropicMessagesCodec
