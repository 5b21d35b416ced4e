import NemoRelay.Codec.Json
import NemoRelay.Error

/-!
# Annotated requests

The structured view of a request that the codecs produce and consume, and the JSON values its
parts serialize to.
-/

namespace NemoRelay

/-- An object with the given members, then the flattened ones. -/
def Json.ofFields (fields : List (String × Option Json)) (flattened : Object) : Json :=
  .obj (insertFields (insertFields [] fields) (flattened.map fun entry => (entry.1, some entry.2)))

/-- `serde::Serialize`, into a JSON value. -/
class Serialize (α : Type) where
  toValue : α → Json

export Serialize (toValue)

instance : Serialize Json := ⟨id⟩

structure OpenAiImageUrl where
  url : String
  detail : Option String
  deriving DecidableEq

instance : Serialize OpenAiImageUrl where
  toValue image := .ofFields [("url", some (.str image.url)), ("detail", image.detail.map .str)] []

inductive ContentPart
  | text (text : String) (extra : Object)
  | imageUrl (imageUrl : OpenAiImageUrl) (extra : Object)
  | image (image : Json) (extra : Object)
  | audio (audio : Json) (extra : Object)
  | file (file : Json) (extra : Object)
  | refusal (refusal : String) (extra : Object)
  | toolUse (id name : String) (input : Json) (extra : Object)
  | toolResult (toolUseId : String) (content : Json) (isError : Option Bool) (extra : Object)
  | providerNative (provider kind : String) (value : Json)
  deriving DecidableEq

instance : Serialize ContentPart where
  toValue
    | .text text extra => .ofFields [("type", some (.str "text")), ("text", some (.str text))] extra
    | .imageUrl imageUrl extra =>
      .ofFields [("type", some (.str "image_url")), ("image_url", some (toValue imageUrl))] extra
    | .image image extra =>
      .ofFields [("type", some (.str "image")), ("image", some image)] extra
    | .audio audio extra =>
      .ofFields [("type", some (.str "audio")), ("audio", some audio)] extra
    | .file file extra => .ofFields [("type", some (.str "file")), ("file", some file)] extra
    | .refusal refusal extra =>
      .ofFields [("type", some (.str "refusal")), ("refusal", some (.str refusal))] extra
    | .toolUse id name input extra =>
      .ofFields [("type", some (.str "tool_use")), ("id", some (.str id)),
        ("name", some (.str name)), ("input", some input)] extra
    | .toolResult toolUseId content isError extra =>
      .ofFields [("type", some (.str "tool_result")), ("tool_use_id", some (.str toolUseId)),
        ("content", some content), ("is_error", isError.map .bool)] extra
    | .providerNative provider kind value =>
      .ofFields [("type", some (.str "provider_native")), ("provider", some (.str provider)),
        ("kind", some (.str kind)), ("value", some value)] []

inductive MessageContent
  | text (text : String)
  | parts (parts : List ContentPart)
  deriving DecidableEq

instance : Serialize MessageContent where
  toValue
    | .text text => .str text
    | .parts parts => .arr (parts.map toValue)

structure FunctionCall where
  name : String
  arguments : String
  deriving DecidableEq

structure ToolCall where
  id : String
  callType : String
  function : FunctionCall
  deriving DecidableEq

instance : Serialize FunctionCall where
  toValue call :=
    .ofFields [("name", some (.str call.name)), ("arguments", some (.str call.arguments))] []

instance : Serialize ToolCall where
  toValue call :=
    .ofFields [("id", some (.str call.id)), ("type", some (.str call.callType)),
      ("function", some (toValue call.function))] []

inductive Message
  | system (content : MessageContent) (name : Option String)
  | user (content : MessageContent) (name : Option String)
  | developer (content : MessageContent) (name : Option String)
  | assistant (content : Option MessageContent) (toolCalls : Option (List ToolCall))
      (name : Option String)
  | tool (content : MessageContent) (toolCallId : String)
  | function (content : Option String) (name : String)
  | toolCallItem (id : Option String) (callId name : String) (arguments : Json) (extra : Object)
  | toolResultItem (id : Option String) (callId : String) (output : Json) (extra : Object)
  | providerNative (provider kind : String) (value : Json)
  deriving DecidableEq

instance : Serialize Message where
  toValue
    | .system content name =>
      .ofFields [("role", some (.str "system")), ("content", some (toValue content)),
        ("name", name.map .str)] []
    | .user content name =>
      .ofFields [("role", some (.str "user")), ("content", some (toValue content)),
        ("name", name.map .str)] []
    | .developer content name =>
      .ofFields [("role", some (.str "developer")), ("content", some (toValue content)),
        ("name", name.map .str)] []
    | .assistant content toolCalls name =>
      .ofFields [("role", some (.str "assistant")), ("content", content.map toValue),
        ("tool_calls", toolCalls.map fun calls => .arr (calls.map toValue)),
        ("name", name.map .str)] []
    | .tool content toolCallId =>
      .ofFields [("role", some (.str "tool")), ("content", some (toValue content)),
        ("tool_call_id", some (.str toolCallId))] []
    | .function content name =>
      .ofFields [("role", some (.str "function")),
        ("content", some ((content.map .str).getD .null)), ("name", some (.str name))] []
    | .toolCallItem id callId name arguments extra =>
      .ofFields [("role", some (.str "tool_call")), ("id", id.map .str),
        ("call_id", some (.str callId)), ("name", some (.str name)),
        ("arguments", some arguments)] extra
    | .toolResultItem id callId output extra =>
      .ofFields [("role", some (.str "tool_result")), ("id", id.map .str),
        ("call_id", some (.str callId)), ("output", some output)] extra
    | .providerNative provider kind value =>
      .ofFields [("role", some (.str "provider_native")), ("provider", some (.str provider)),
        ("kind", some (.str kind)), ("value", some value)] []

structure FunctionDefinition where
  name : String
  description : Option String
  parameters : Option Json
  strict : Option Bool
  extra : Object
  deriving DecidableEq

instance : Serialize FunctionDefinition where
  toValue function :=
    .ofFields [("name", some (.str function.name)),
      ("description", function.description.map .str), ("parameters", function.parameters),
      ("strict", function.strict.map .bool)] function.extra

inductive ToolDefinition
  | function (function : FunctionDefinition) (extra : Object)
  | providerNative (provider kind : String) (value : Json)
  deriving DecidableEq

instance : Serialize ToolDefinition where
  toValue
    | .function function extra =>
      .ofFields [("type", some (.str "function")), ("function", some (toValue function))] extra
    | .providerNative provider kind value =>
      .ofFields [("type", some (.str "provider_native")), ("provider", some (.str provider)),
        ("kind", some (.str kind)), ("value", some value)] []

structure ProviderNativeComponent where
  provider : String
  kind : String
  value : Json
  deriving DecidableEq

structure ToolChoiceFunctionName where
  name : String
  deriving DecidableEq

structure ToolChoiceFunction where
  choiceType : String
  function : ToolChoiceFunctionName
  deriving DecidableEq

inductive ToolChoice
  | auto
  | none
  | required
  | specific (choice : ToolChoiceFunction)
  | providerNative (native : ProviderNativeComponent)
  deriving DecidableEq

structure GenerationParams where
  temperature : Option F64
  maxTokens : Option Nat
  topP : Option F64
  stop : Option (List String)
  deriving DecidableEq

/-! ### Provider-native components -/

def ContentPart.isNative : ContentPart → Bool
  | .providerNative .. => true
  | _ => false

def Message.isNative : Message → Bool
  | .providerNative .. => true
  | _ => false

def ToolChoice.isNative : ToolChoice → Bool
  | .providerNative .. => true
  | _ => false

/-! ### Fields of one provider -/

structure AnthropicMessagesFields where
  cacheControl : Option Json
  container : Option String
  inferenceGeo : Option String
  outputConfig : Option Json
  thinking : Option Json
  topK : Option Nat
  userProfileId : Option String

structure OpenAIChatFields where
  audio : Option Json
  frequencyPenalty : Option F64
  functionCall : Option Json
  functions : Option (List Json)
  logitBias : Option Json
  logprobs : Option Bool
  modalities : Option (List String)
  moderation : Option Json
  n : Option Nat
  prediction : Option Json
  presencePenalty : Option F64
  promptCacheKey : Option String
  promptCacheOptions : Option Json
  promptCacheRetention : Option String
  reasoningEffort : Option String
  responseFormat : Option Json
  safetyIdentifier : Option String
  seed : Option Int
  streamOptions : Option Json
  verbosity : Option String
  webSearchOptions : Option Json

structure OpenAIResponsesFields where
  background : Option Bool
  contextManagement : Option Json
  conversation : Option Json
  moderation : Option Json
  prompt : Option Json
  promptCacheKey : Option String
  promptCacheOptions : Option Json
  promptCacheRetention : Option String
  safetyIdentifier : Option String
  streamOptions : Option Json
  text : Option Json

inductive ApiSpecificRequest
  | anthropicMessages (fields : AnthropicMessagesFields)
  | openAIChat (fields : OpenAIChatFields)
  | openAIResponses (fields : OpenAIResponsesFields)
  | ociGenAI (compartmentId : Option String) (servingMode : Option Json) (apiFormat : Option String)
  | custom (apiName : String) (data : Json)

structure AnnotatedLlmRequest where
  messages : List Message
  instructions : Option MessageContent
  model : Option String
  params : Option GenerationParams
  tools : Option (List ToolDefinition)
  toolChoice : Option ToolChoice
  store : Option Bool
  previousResponseId : Option String
  truncation : Option Json
  reasoning : Option Json
  includeFilter : Option Json
  user : Option String
  metadata : Option Json
  serviceTier : Option String
  parallelToolCalls : Option Bool
  maxOutputTokens : Option Nat
  maxToolCalls : Option Nat
  topLogprobs : Option Nat
  stream : Option Bool
  apiSpecific : Option ApiSpecificRequest
  extra : Object

/-- A request with messages and nothing else. -/
def AnnotatedLlmRequest.ofMessages (messages : List Message) : AnnotatedLlmRequest where
  messages := messages
  instructions := none
  model := none
  params := none
  tools := none
  toolChoice := none
  store := none
  previousResponseId := none
  truncation := none
  reasoning := none
  includeFilter := none
  user := none
  metadata := none
  serviceTier := none
  parallelToolCalls := none
  maxOutputTokens := none
  maxToolCalls := none
  topLogprobs := none
  stream := none
  apiSpecific := none
  extra := []

/-! ### Serialized requests -/

instance : Serialize GenerationParams where
  toValue params :=
    .ofFields [("temperature", params.temperature.map (.num ∘ .float)),
      ("max_tokens", params.maxTokens.map (.num ∘ .posInt)),
      ("top_p", params.topP.map (.num ∘ .float)), ("stop", params.stop.map .strings)] []

instance : Serialize ToolChoice where
  toValue
    | .auto => .str "auto"
    | .none => .str "none"
    | .required => .str "required"
    | .specific choice =>
      .ofFields [("type", some (.str choice.choiceType)),
        ("function", some (.ofFields [("name", some (.str choice.function.name))] []))] []
    | .providerNative native =>
      .ofFields [("provider", some (.str native.provider)), ("kind", some (.str native.kind)),
        ("value", some native.value)] []

instance : Serialize ApiSpecificRequest where
  toValue
    | .anthropicMessages fields =>
      .ofFields [("api", some (.str "anthropic_messages")),
        ("cache_control", fields.cacheControl), ("container", fields.container.map .str),
        ("inference_geo", fields.inferenceGeo.map .str), ("output_config", fields.outputConfig),
        ("thinking", fields.thinking), ("top_k", fields.topK.map (.num ∘ .posInt)),
        ("user_profile_id", fields.userProfileId.map .str)] []
    | .openAIChat fields =>
      .ofFields [("api", some (.str "openai_chat")), ("audio", fields.audio),
        ("frequency_penalty", fields.frequencyPenalty.map (.num ∘ .float)),
        ("function_call", fields.functionCall), ("functions", fields.functions.map .arr),
        ("logit_bias", fields.logitBias), ("logprobs", fields.logprobs.map .bool),
        ("modalities", fields.modalities.map .strings), ("moderation", fields.moderation),
        ("n", fields.n.map (.num ∘ .posInt)), ("prediction", fields.prediction),
        ("presence_penalty", fields.presencePenalty.map (.num ∘ .float)),
        ("prompt_cache_key", fields.promptCacheKey.map .str),
        ("prompt_cache_options", fields.promptCacheOptions),
        ("prompt_cache_retention", fields.promptCacheRetention.map .str),
        ("reasoning_effort", fields.reasoningEffort.map .str),
        ("response_format", fields.responseFormat),
        ("safety_identifier", fields.safetyIdentifier.map .str),
        ("seed", fields.seed.map (.num ∘ .ofI64)), ("stream_options", fields.streamOptions),
        ("verbosity", fields.verbosity.map .str),
        ("web_search_options", fields.webSearchOptions)] []
    | .openAIResponses fields =>
      .ofFields [("api", some (.str "openai_responses")),
        ("background", fields.background.map .bool),
        ("context_management", fields.contextManagement), ("conversation", fields.conversation),
        ("moderation", fields.moderation), ("prompt", fields.prompt),
        ("prompt_cache_key", fields.promptCacheKey.map .str),
        ("prompt_cache_options", fields.promptCacheOptions),
        ("prompt_cache_retention", fields.promptCacheRetention.map .str),
        ("safety_identifier", fields.safetyIdentifier.map .str),
        ("stream_options", fields.streamOptions), ("text", fields.text)] []
    | .ociGenAI compartmentId servingMode apiFormat =>
      .ofFields [("api", some (.str "oci_genai")), ("compartment_id", compartmentId.map .str),
        ("serving_mode", servingMode), ("api_format", apiFormat.map .str)] []
    | .custom apiName data =>
      .ofFields [("api", some (.str "custom")), ("api_name", some (.str apiName)),
        ("data", some data)] []

instance : Serialize AnnotatedLlmRequest where
  toValue request :=
    .ofFields [("messages", some (.arr (request.messages.map toValue))),
      ("instructions", request.instructions.map toValue), ("model", request.model.map .str),
      ("params", request.params.map toValue),
      ("tools", request.tools.map fun tools => .arr (tools.map toValue)),
      ("tool_choice", request.toolChoice.map toValue), ("store", request.store.map .bool),
      ("previous_response_id", request.previousResponseId.map .str),
      ("truncation", request.truncation), ("reasoning", request.reasoning),
      ("include", request.includeFilter), ("user", request.user.map .str),
      ("metadata", request.metadata), ("service_tier", request.serviceTier.map .str),
      ("parallel_tool_calls", request.parallelToolCalls.map .bool),
      ("max_output_tokens", request.maxOutputTokens.map (.num ∘ .posInt)),
      ("max_tool_calls", request.maxToolCalls.map (.num ∘ .posInt)),
      ("top_logprobs", request.topLogprobs.map (.num ∘ .posInt)),
      ("stream", request.stream.map .bool), ("api_specific", request.apiSpecific.map toValue)]
      request.extra

/-- An opaque request: its headers and its body. -/
structure LlmRequest where
  headers : Object
  content : Json

/-- The texts that error messages quote and that the codecs do not build themselves: why `serde`
cannot read a value as a type, and the `Debug` form of a component. -/
class ErrorTexts where
  mismatch : Json → String → String
  message : Message → String
  part : ContentPart → String
  tool : ToolDefinition → String

end NemoRelay
