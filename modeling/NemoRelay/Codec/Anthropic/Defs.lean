import NemoRelay.Codec.OpenAiChat.Defs

/-!
# The Anthropic Messages codec

`anthropic.rs`: decoding a Messages request into an annotated request.
-/

namespace NemoRelay.AnthropicMessagesCodec

open SortedMap

variable [ErrorTexts]

/-- Keys that are modelled in `AnnotatedLlmRequest` and do not go into `extra`. -/
def modeledRequestKeys : List String :=
  ["system", "messages", "model", "max_tokens", "temperature", "top_p", "stop_sequences", "tools",
    "tool_choice", "metadata", "service_tier", "stream", "cache_control", "container",
    "inference_geo", "output_config", "thinking", "top_k", "anthropic-user-profile-id"]

variable (value : Json)

/-- The kind of a native component. -/
def nativeKind : String := ((value.get "type").bind Json.asStr).getD "unknown"

def nativeComponent (provider : String) (value : Json) : ProviderNativeComponent :=
  { provider, kind := nativeKind value, value }

/-! ### Messages -/

variable (obj : Object)

/-- The object without its type. -/
def untyped : Json := .obj (otherKeys obj ["type"])

def decodeAnthropicContentPart : Except FlowError ContentPart := do
  let obj ← okOr value.asObject "Anthropic Messages content block must be an object"
  let kind := ((get obj "type").bind Json.asStr).getD "unknown"
  match kind with
  | "text" =>
    let text ← okOr ((get obj "text").bind Json.asStr) "Anthropic text block is missing text"
    return .text text (otherKeys obj ["type", "text"])
  | "image" => return .image (untyped obj) []
  | "document" => return .file (untyped obj) []
  | "tool_use" =>
    let id ← okOr ((get obj "id").bind Json.asStr)
      "Anthropic tool_use block is missing id"
    let name ← okOr ((get obj "name").bind Json.asStr)
      "Anthropic tool_use block is missing name"
    let input ← okOr (get obj "input") "Anthropic tool_use block is missing input"
    return .toolUse id name input (otherKeys obj ["type", "id", "name", "input"])
  | "tool_result" =>
    let toolUseId ← okOr ((get obj "tool_use_id").bind Json.asStr)
      "Anthropic tool_result block is missing tool_use_id"
    let content ← okOr (get obj "content") "Anthropic tool_result block is missing content"
    let isError ← okOr (FieldFormat.bool.readOptional (get obj "is_error"))
      "Anthropic tool_result is_error must be a boolean"
    return .toolResult toolUseId content isError
      (otherKeys obj ["type", "tool_use_id", "content", "is_error"])
  | _ => return .providerNative "anthropic_messages" (nativeKind value) value

def decodeAnthropicContent : Json → Except FlowError MessageContent
  | .str text => .ok (.text text)
  | .arr blocks => do return .parts (← blocks.mapM decodeAnthropicContentPart)
  | _ => invalidArgument "Anthropic Messages content must be a string or an array"

def decodeAnthropicMessage : Except FlowError Message := do
  let obj ← okOr value.asObject "Anthropic Messages message must be an object"
  let role ← okOr ((get obj "role").bind Json.asStr) "Anthropic Messages message is missing role"
  let content ← okOr (get obj "content") "Anthropic Messages message is missing content"
  let native := Message.providerNative "anthropic_messages" role value
  if !onlyKeys obj ["role", "content"] then return native
  else
    let content ← decodeAnthropicContent content
    match role with
    | "user" => return .user content none
    | "assistant" => return .assistant (some content) none none
    | "system" => return .system content none
    | _ => return native

/-! ### Tools -/

def decodeAnthropicTool : Except FlowError ToolDefinition := do
  let obj ← okOr value.asObject "Anthropic Messages tool must be an object"
  let isClientTool := (get obj "type").isNone && (get obj "name").isSome &&
    (get obj "input_schema").isSome
  if !isClientTool then
    return .providerNative "anthropic_messages" (nativeKind value) value
  else
    let name ← optionalString obj "name" "Anthropic Messages tool"
    let name ← okOr name "Anthropic Messages tool is missing name"
    let description ← optionalString obj "description" "Anthropic Messages tool"
    let strict ← optionalBool obj "strict" "Anthropic Messages tool"
    return .function
      { name, description, parameters := get obj "input_schema", strict, extra := [] }
      (otherKeys obj ["name", "description", "input_schema", "strict"])

def decodeAnthropicToolChoice : Option ToolChoice := do
  let obj ← value.asObject
  let kind ← (get obj "type").bind Json.asStr
  match kind with
  | "auto" => some .auto
  | "any" => some .required
  | "none" => some .none
  | "tool" =>
    let name ← (get obj "name").bind Json.asStr
    some (.specific { choiceType := "function", function := { name } })
  | _ => none

def decodeParallelToolCalls : Except FlowError (Option Bool) :=
  match value.asObject with
  | none => .ok none
  | some obj => do
    let disabled ← optionalBool obj "disable_parallel_tool_use" "Anthropic Messages tool_choice"
    return disabled.map (!·)

/-! ### Decoding a request -/

def decodeAnthropicMessages : Except FlowError (List Message) := do
  let messages ← okOr (get obj "messages") "Anthropic Messages request is missing messages"
  let messages ← okOr messages.asArray "Anthropic Messages messages must be an array"
  messages.mapM decodeAnthropicMessage

def decodeAnthropicStop : Except FlowError (Option (List String)) :=
  match get obj "stop_sequences" with
  | none | some .null => .ok none
  | some value => do
    let stop ← okOr (FieldFormat.strings.read value)
      ("invalid Anthropic stop_sequences value: " ++ ErrorTexts.mismatch value "Vec<String>")
    return some stop

def decodeAnthropicTools : Except FlowError (Option (List ToolDefinition)) :=
  match get obj "tools" with
  | none => .ok none
  | some value => do
    let tools ← okOr value.asArray "Anthropic Messages tools must be an array"
    return some (← tools.mapM decodeAnthropicTool)

def decodeObject : Except FlowError AnnotatedLlmRequest := do
  let messages ← decodeAnthropicMessages obj
  let instructions ← (get obj "system").mapM decodeAnthropicContent
  let model ← optionalString obj "model" "Anthropic Messages"
  let temperature ← optionalF64 obj "temperature" "Anthropic Messages"
  let topP ← optionalF64 obj "top_p" "Anthropic Messages"
  let maxTokens ← optionalU64 obj "max_tokens" "Anthropic Messages"
  let stop ← decodeAnthropicStop obj
  let tools ← decodeAnthropicTools obj
  let parallelToolCalls ← (get obj "tool_choice").mapM decodeParallelToolCalls
  let serviceTier ← optionalString obj "service_tier" "Anthropic Messages"
  let stream ← optionalBool obj "stream" "Anthropic Messages"
  let container ← optionalString obj "container" "Anthropic Messages"
  let inferenceGeo ← optionalString obj "inference_geo" "Anthropic Messages"
  let topK ← optionalU64 obj "top_k" "Anthropic Messages"
  let userProfileId ← optionalString obj "anthropic-user-profile-id" "Anthropic Messages"
  let metadata ← optionalObject obj "metadata" "Anthropic Messages"
  let cacheControl ← optionalObject obj "cache_control" "Anthropic Messages"
  let outputConfig ← optionalObject obj "output_config" "Anthropic Messages"
  let thinking ← optionalObject obj "thinking" "Anthropic Messages"
  return {
    messages
    instructions
    model
    params := OpenAIChatCodec.generationParams temperature maxTokens topP stop
    tools
    toolChoice := (get obj "tool_choice").map fun value =>
      (decodeAnthropicToolChoice value).getD
        (.providerNative (nativeComponent "anthropic_messages" value))
    store := none
    previousResponseId := none
    truncation := none
    reasoning := none
    includeFilter := none
    user := none
    metadata
    serviceTier
    parallelToolCalls := parallelToolCalls.join
    maxOutputTokens := none
    maxToolCalls := none
    topLogprobs := none
    stream
    apiSpecific := some (.anthropicMessages {
      cacheControl, container, inferenceGeo, outputConfig, thinking, topK, userProfileId })
    extra := otherKeys obj modeledRequestKeys }

def decode (request : LlmRequest) : Except FlowError AnnotatedLlmRequest :=
  match request.content with
  | .obj obj => decodeObject obj
  | _ => .error (.internal "request content is not an object")

end NemoRelay.AnthropicMessagesCodec
