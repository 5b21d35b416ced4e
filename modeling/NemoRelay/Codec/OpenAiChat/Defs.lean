import NemoRelay.Codec.Fields

/-!
# The OpenAI Chat codec

`openai_chat.rs`: decoding a Chat Completions request into an annotated request, and encoding an
edited request by patching the body it was decoded from.
-/

namespace NemoRelay.OpenAIChatCodec

open SortedMap

open Json (asArray asObject asStr isString strings)

open FieldFormat

variable [ErrorTexts]

/-- The keys of the fields that only the Chat API has. -/
def apiSpecificKeys : List String :=
  ["audio", "frequency_penalty", "function_call", "functions", "logit_bias", "logprobs",
    "modalities", "moderation", "n", "prediction", "presence_penalty", "prompt_cache_key",
    "prompt_cache_options", "prompt_cache_retention", "reasoning_effort", "response_format",
    "safety_identifier", "seed", "stream_options", "verbosity", "web_search_options"]

/-- Keys that are modelled in `AnnotatedLlmRequest` and do not go into `extra`. -/
def modeledRequestKeys : List String :=
  ["messages", "model", "temperature", "max_tokens", "max_completion_tokens", "top_p", "stop",
    "tools", "tool_choice", "store", "user", "metadata", "service_tier", "parallel_tool_calls",
    "top_logprobs", "stream"] ++ apiSpecificKeys

def chatNative (kind : String) (value : Json) : ProviderNativeComponent :=
  { provider := "openai_chat", kind, value }

/-! ### Messages -/

/-- `serde` reads an image URL from an object, or from an array with one item for each field. -/
def readImageUrl : Json → Option OpenAiImageUrl
  | .obj entries => do
    let url ← (get entries "url").bind asStr
    let detail ← string.readOptional (get entries "detail")
    return { url, detail }
  | .arr [url, detail] => do
    let url ← url.asStr
    let detail ← string.readOptional (some detail)
    return { url, detail }
  | _ => none

def decodeChatContentPart (value : Json) : Except FlowError ContentPart := do
  let obj ← okOr value.asObject "OpenAI Chat content part must be an object"
  let kind := ((get obj "type").bind asStr).getD "unknown"
  match kind with
  | "text" =>
    let text ← okOr ((get obj "text").bind asStr) "OpenAI Chat text part is missing text"
    return .text text (otherKeys obj ["type", "text"])
  | "image_url" =>
    let payload ← okOr (get obj "image_url") "OpenAI Chat image part is missing image_url"
    let imageUrl ← okOr (readImageUrl payload)
      ("invalid OpenAI Chat image_url: " ++ ErrorTexts.mismatch payload "OpenAiImageUrl")
    return .imageUrl imageUrl (otherKeys obj ["type", "image_url"])
  | "input_audio" =>
    let audio ← okOr (get obj "input_audio") "OpenAI Chat audio part is missing input_audio"
    return .audio audio (otherKeys obj ["type", "input_audio"])
  | "file" =>
    let file ← okOr (get obj "file") "OpenAI Chat file part is missing file"
    return .file file (otherKeys obj ["type", "file"])
  | "refusal" =>
    let refusal ← okOr ((get obj "refusal").bind asStr)
      "OpenAI Chat refusal part is missing refusal"
    return .refusal refusal (otherKeys obj ["type", "refusal"])
  | _ => return .providerNative "openai_chat" kind value

def decodeChatContent : Json → Except FlowError MessageContent
  | .str text => .ok (.text text)
  | .arr parts => do return .parts (← parts.mapM decodeChatContentPart)
  | _ => invalidArgument "OpenAI Chat message content must be a string or array"

variable (obj : Object)

def optionalChatString (key context : String) : Except FlowError (Option String) :=
  optionalField .string obj key s!"OpenAI Chat {context}"

/-- A call, or `none` if it has a form without portable meaning. -/
def decodeChatToolCall (value : Json) : Except FlowError (Option ToolCall) := do
  let obj ← okOr value.asObject "OpenAI Chat tool call must be an object"
  if (get obj "type").bind asStr ≠ some "function" then return none
  else if !onlyKeys obj ["id", "type", "function"] then return none
  else
    let function ← okOr ((get obj "function").bind asObject)
      "OpenAI Chat function tool call is missing function"
    if !onlyKeys function ["name", "arguments"] then return none
    else
      let id ← okOr ((get obj "id").bind asStr)
        "OpenAI Chat function tool call is missing id"
      let name ← okOr ((get function "name").bind asStr)
        "OpenAI Chat function tool call is missing name"
      let arguments ← okOr ((get function "arguments").bind asStr)
        "OpenAI Chat function tool call is missing arguments"
      return some { id, callType := "function", function := { name, arguments } }

/-- The calls of an assistant message. The inner `none` stands for calls that cannot be modelled. -/
def decodeChatToolCalls : Except FlowError (Option (Option (List ToolCall))) :=
  match get obj "tool_calls" with
  | none | some .null => .ok (some none)
  | some (.arr calls) => do
    match (← calls.mapM decodeChatToolCall).mapM id with
    | some decoded => return some (some decoded)
    | none => return none
  | some _ => invalidArgument "OpenAI Chat assistant tool_calls must be an array or null"

/-- The content of an assistant message. -/
def decodeChatOptionalContent : Except FlowError (Option MessageContent) :=
  match get obj "content" with
  | none | some .null => .ok none
  | some content => do return some (← decodeChatContent content)

/-- The message of a role that has content and a name only. -/
def contentMessage (role : String) (content : MessageContent) (name : Option String) : Message :=
  match role with
  | "system" => .system content name
  | "developer" => .developer content name
  | _ => .user content name

def decodeChatMessage (value : Json) : Except FlowError Message := do
  let obj ← okOr value.asObject "OpenAI Chat message must be an object"
  let role ← okOr ((get obj "role").bind asStr) "OpenAI Chat message is missing role"
  let native := Message.providerNative "openai_chat" role value
  if role = "system" ∨ role = "developer" ∨ role = "user" then
    if !onlyKeys obj ["role", "content", "name"] then return native
    else
      let content ← decodeChatContent (← okOr (get obj "content")
        "OpenAI Chat message is missing content")
      let name ← optionalChatString obj "name" "message"
      return contentMessage role content name
  else if role = "assistant" then
    if !onlyKeys obj ["role", "content", "tool_calls", "name"] then return native
    else
      let content ← decodeChatOptionalContent obj
      match ← decodeChatToolCalls obj with
      | none => return native
      | some toolCalls =>
        return .assistant content toolCalls (← optionalChatString obj "name" "assistant message")
  else if role = "tool" ∧ onlyKeys obj ["role", "content", "tool_call_id"] then
    let content ← decodeChatContent (← okOr (get obj "content")
      "OpenAI Chat tool message is missing content")
    let toolCallId ← okOr ((get obj "tool_call_id").bind asStr)
      "OpenAI Chat tool message is missing tool_call_id"
    return .tool content toolCallId
  else if role = "function" ∧ onlyKeys obj ["role", "content", "name"] then
    let content ← optionalChatString obj "content" "function message"
    let name ← okOr ((get obj "name").bind asStr) "OpenAI Chat function message is missing name"
    return .function content name
  else return native

def encodeChatContentPart : ContentPart → Except FlowError Json
  | .text text extra =>
    .ok (.obj (insertFields extra [("type", some (.str "text")), ("text", some (.str text))]))
  | .imageUrl imageUrl extra =>
    .ok (.obj (insertFields extra
      [("type", some (.str "image_url")), ("image_url", some (toValue imageUrl))]))
  | .audio audio extra =>
    .ok (.obj (insertFields extra
      [("type", some (.str "input_audio")), ("input_audio", some audio)]))
  | .file file extra =>
    .ok (.obj (insertFields extra [("type", some (.str "file")), ("file", some file)]))
  | .refusal refusal extra =>
    .ok (.obj (insertFields extra
      [("type", some (.str "refusal")), ("refusal", some (.str refusal))]))
  | .providerNative "openai_chat" _ value => .ok value
  | other =>
    invalidArgument s!"content part {ErrorTexts.part other} cannot be encoded for OpenAI Chat"

def encodeChatContent : MessageContent → Except FlowError Json
  | .text text => .ok (.str text)
  | .parts parts => do return .arr (← parts.mapM encodeChatContentPart)

def messageWithContent (role : String) (content : MessageContent) (name : Option String) :
    Except FlowError Json := do
  let content ← encodeChatContent content
  return .obj (insertFields []
    [("role", some (.str role)), ("content", some content), ("name", name.map .str)])

def encodeChatMessage : Message → Except FlowError Json
  | .system content name => messageWithContent "system" content name
  | .developer content name => messageWithContent "developer" content name
  | .user content name => messageWithContent "user" content name
  | .assistant content toolCalls name => do
    let content ← content.mapM encodeChatContent
    return .obj (insertFields []
      [("role", some (.str "assistant")), ("content", content),
        ("tool_calls", toolCalls.map fun calls => .arr (calls.map toValue)),
        ("name", name.map .str)])
  | .tool content toolCallId => do
    let content ← encodeChatContent content
    return .obj (insertFields []
      [("role", some (.str "tool")), ("content", some content),
        ("tool_call_id", some (.str toolCallId))])
  | .function content name =>
    .ok (.obj (insertFields []
      [("role", some (.str "function")), ("content", some ((content.map .str).getD .null)),
        ("name", some (.str name))]))
  | .providerNative "openai_chat" _ value => .ok value
  | other =>
    invalidArgument s!"message {ErrorTexts.message other} cannot be encoded for OpenAI Chat"

/-! ### Tools -/

def decodeChatTool (value : Json) : Except FlowError ToolDefinition := do
  let obj ← okOr value.asObject "OpenAI Chat tool must be an object"
  if (get obj "type").bind asStr ≠ some "function" then
    let native :=
      chatNative (((get obj "type").bind asStr).getD "unknown") value
    return .providerNative native.provider native.kind native.value
  else
    let function ← okOr ((get obj "function").bind asObject)
      "OpenAI Chat function tool is missing function"
    let name ← okOr ((get function "name").bind asStr) "OpenAI Chat function tool is missing name"
    let description ← optionalString function "description" "OpenAI Chat function tool"
    let strict ← optionalBool function "strict" "OpenAI Chat function tool"
    return .function
      { name, description, parameters := get function "parameters", strict,
        extra := otherKeys function ["name", "description", "parameters", "strict"] }
      (otherKeys obj ["type", "function"])

def encodeChatTool : ToolDefinition → Except FlowError Json
  | .function function extra =>
    let functionObj := insertFields function.extra
      [("name", some (.str function.name)), ("description", function.description.map .str),
        ("parameters", function.parameters), ("strict", function.strict.map .bool)]
    .ok (.obj (insertFields extra
      [("type", some (.str "function")), ("function", some (.obj functionObj))]))
  | .providerNative "openai_chat" _ value => .ok value
  | other => invalidArgument s!"tool {ErrorTexts.tool other} cannot be encoded for OpenAI Chat"

/-- The name in a tool choice that forces one function. -/
def chosenFunction (value : Json) : Option String := do
  let obj ← value.asObject
  if (get obj "type").bind asStr = some "function" then
    let function ← (get obj "function").bind asObject
    (get function "name").bind asStr
  else none

def decodeChatToolChoice (value : Json) : ToolChoice :=
  match value.asStr with
  | some "auto" => .auto
  | some "none" => .none
  | some "required" => .required
  | _ =>
    match chosenFunction value with
    | some name => .specific { choiceType := "function", function := { name } }
    | none => .providerNative (chatNative "tool_choice" value)

def encodeChatToolChoice : ToolChoice → Except FlowError Json
  | .auto => .ok (.str "auto")
  | .none => .ok (.str "none")
  | .required => .ok (.str "required")
  | .specific choice =>
    .ok (.obj [("function", .obj [("name", .str choice.function.name)]), ("type", .str "function")])
  | .providerNative native =>
    if native.provider = "openai_chat" then .ok native.value
    else invalidArgument s!"tool choice for {native.provider} cannot be encoded for OpenAI Chat"

/-! ### Decoding a request -/

def decodeChatMessages : Except FlowError (List Message) := do
  let messages ← okOr (get obj "messages") "OpenAI Chat request is missing messages"
  let messages ← okOr messages.asArray "OpenAI Chat messages must be an array"
  messages.mapM decodeChatMessage

def decodeChatStop : Except FlowError (Option (List String)) :=
  match get obj "stop" with
  | some (.str stop) => .ok (some [stop])
  | some (.arr items) => do
    let stop ← okOr (strings.read (.arr items))
      ("invalid OpenAI Chat stop value: " ++ ErrorTexts.mismatch (.arr items) "Vec<String>")
    return some stop
  | some .null | none => .ok none
  | some _ => invalidArgument "OpenAI Chat stop must be a string, array, or null"

def decodeChatTools : Except FlowError (Option (List ToolDefinition)) :=
  match get obj "tools" with
  | none => .ok none
  | some value => do
    let tools ← okOr value.asArray "OpenAI Chat tools must be an array"
    return some (← tools.mapM decodeChatTool)

def decodeChatFunctions : Except FlowError (Option (List Json)) :=
  match get obj "functions" with
  | some .null | none => .ok none
  | some (.arr functions) => .ok (some functions)
  | some _ => invalidArgument "OpenAI Chat functions must be an array or null"

def decodeChatModalities : Except FlowError (Option (List String)) :=
  match get obj "modalities" with
  | some .null | none => .ok none
  | some value => do
    let modalities ← okOr (strings.read value)
      ("invalid OpenAI Chat modalities: " ++ ErrorTexts.mismatch value "Vec<String>")
    return some modalities

/-- The parameters, unless all of them are absent. -/
def generationParams (temperature : Option F64) (maxTokens : Option Nat) (topP : Option F64)
    (stop : Option (List String)) : Option GenerationParams :=
  if temperature.isSome || maxTokens.isSome || topP.isSome || stop.isSome then
    some { temperature, maxTokens, topP, stop }
  else none

def decodeObject : Except FlowError AnnotatedLlmRequest := do
  let messages ← decodeChatMessages obj
  let model ← optionalString obj "model" "OpenAI Chat"
  let temperature ← optionalF64 obj "temperature" "OpenAI Chat"
  let topP ← optionalF64 obj "top_p" "OpenAI Chat"
  let stop ← decodeChatStop obj
  let maxCompletionTokens ← optionalU64 obj "max_completion_tokens" "OpenAI Chat"
  let maxTokens ← optionalU64 obj "max_tokens" "OpenAI Chat"
  let tools ← decodeChatTools obj
  let store ← optionalBool obj "store" "OpenAI Chat"
  let user ← optionalString obj "user" "OpenAI Chat"
  let serviceTier ← optionalString obj "service_tier" "OpenAI Chat"
  let parallelToolCalls ← optionalBool obj "parallel_tool_calls" "OpenAI Chat"
  let topLogprobs ← optionalU64 obj "top_logprobs" "OpenAI Chat"
  let stream ← optionalBool obj "stream" "OpenAI Chat"
  let frequencyPenalty ← optionalF64 obj "frequency_penalty" "OpenAI Chat"
  let functions ← decodeChatFunctions obj
  let logprobs ← optionalBool obj "logprobs" "OpenAI Chat"
  let modalities ← decodeChatModalities obj
  let n ← optionalU64 obj "n" "OpenAI Chat"
  let presencePenalty ← optionalF64 obj "presence_penalty" "OpenAI Chat"
  let promptCacheKey ← optionalString obj "prompt_cache_key" "OpenAI Chat"
  let promptCacheRetention ← optionalString obj "prompt_cache_retention" "OpenAI Chat"
  let reasoningEffort ← optionalString obj "reasoning_effort" "OpenAI Chat"
  let safetyIdentifier ← optionalString obj "safety_identifier" "OpenAI Chat"
  let seed ← optionalI64 obj "seed" "OpenAI Chat"
  let verbosity ← optionalString obj "verbosity" "OpenAI Chat"
  let metadata ← optionalObject obj "metadata" "OpenAI Chat"
  let audio ← optionalObject obj "audio" "OpenAI Chat"
  let logitBias ← optionalObject obj "logit_bias" "OpenAI Chat"
  let moderation ← optionalObject obj "moderation" "OpenAI Chat"
  let prediction ← optionalObject obj "prediction" "OpenAI Chat"
  let promptCacheOptions ← optionalObject obj "prompt_cache_options" "OpenAI Chat"
  let responseFormat ← optionalObject obj "response_format" "OpenAI Chat"
  let streamOptions ← optionalObject obj "stream_options" "OpenAI Chat"
  let webSearchOptions ← optionalObject obj "web_search_options" "OpenAI Chat"
  return {
    messages
    instructions := none
    model
    params := generationParams temperature (maxCompletionTokens.or maxTokens) topP stop
    tools
    toolChoice := (get obj "tool_choice").map decodeChatToolChoice
    store
    previousResponseId := none
    truncation := none
    reasoning := none
    includeFilter := none
    user
    metadata
    serviceTier
    parallelToolCalls
    maxOutputTokens := none
    maxToolCalls := none
    topLogprobs
    stream
    apiSpecific := some (.openAIChat {
      audio, frequencyPenalty, functionCall := get obj "function_call", functions,
      logitBias, logprobs, modalities, moderation, n, prediction, presencePenalty,
      promptCacheKey, promptCacheOptions, promptCacheRetention, reasoningEffort,
      responseFormat, safetyIdentifier, seed, streamOptions, verbosity, webSearchOptions })
    extra := otherKeys obj modeledRequestKeys }

def decode (request : LlmRequest) : Except FlowError AnnotatedLlmRequest :=
  match request.content with
  | .obj obj => decodeObject obj
  | _ => .error (.internal "request content is not an object")

/-! ### Encoding an edited request -/

def patchChatMessagesAndValidate (annotated baseline : AnnotatedLlmRequest) :
    Except FlowError Object := do
  let obj ←
    if annotated.messages ≠ baseline.messages then do
      let originalMessages := (get obj "messages").bind asArray
      let messages ← encodeChangedItems annotated.messages baseline.messages originalMessages
        encodeChatMessage
      pure (insert obj "messages" (.arr messages))
    else pure obj
  if annotated.instructions ≠ baseline.instructions ∨
      annotated.previousResponseId ≠ baseline.previousResponseId ∨
      annotated.truncation ≠ baseline.truncation ∨ annotated.reasoning ≠ baseline.reasoning ∨
      annotated.includeFilter ≠ baseline.includeFilter ∨
      annotated.maxOutputTokens ≠ baseline.maxOutputTokens ∨
      annotated.maxToolCalls ≠ baseline.maxToolCalls then
    invalidArgument "request contains fields that cannot be encoded for OpenAI Chat"
  else return obj

/-- The members that hold one field each. -/
def modelFields : List (Field AnnotatedLlmRequest) := [.optional .string "model" (·.model)]

def paramFields : List (Field (Option GenerationParams)) :=
  [.optional .f64 "temperature" (·.bind (·.temperature)), .optional .f64 "top_p" (·.bind (·.topP))]

def commonFields : List (Field AnnotatedLlmRequest) :=
  [.optional .object "metadata" (·.metadata), .optional .bool "store" (·.store),
    .optional .bool "parallel_tool_calls" (·.parallelToolCalls),
    .optional .bool "stream" (·.stream), .optional .string "user" (·.user),
    .optional .string "service_tier" (·.serviceTier), .optional .u64 "top_logprobs" (·.topLogprobs)]

def apiFields : List (Field OpenAIChatFields) :=
  [.optional .object "audio" (·.audio), .raw "function_call" (·.functionCall),
    .optional .object "logit_bias" (·.logitBias), .optional .object "moderation" (·.moderation),
    .optional .object "prediction" (·.prediction),
    .optional .object "prompt_cache_options" (·.promptCacheOptions),
    .optional .object "response_format" (·.responseFormat),
    .optional .object "stream_options" (·.streamOptions),
    .optional .object "web_search_options" (·.webSearchOptions),
    .optional .f64 "frequency_penalty" (·.frequencyPenalty),
    .optional .f64 "presence_penalty" (·.presencePenalty),
    .optional .string "prompt_cache_key" (·.promptCacheKey),
    .optional .string "prompt_cache_retention" (·.promptCacheRetention),
    .optional .string "reasoning_effort" (·.reasoningEffort),
    .optional .string "safety_identifier" (·.safetyIdentifier),
    .optional .string "verbosity" (·.verbosity), .optional .items "functions" (·.functions),
    .optional .strings "modalities" (·.modalities), .optional .bool "logprobs" (·.logprobs),
    .optional .u64 "n" (·.n), .optional .i64 "seed" (·.seed)]

def patchChatOptionalParams (edited before : Option GenerationParams) (obj : Object) : Object :=
  patchRecord paramFields edited before obj

def patchChatMaxTokens (edited before : Option GenerationParams) (obj : Object) : Object :=
  let maxTokens := edited.bind (·.maxTokens)
  if maxTokens = before.bind (·.maxTokens) then obj
  else
    match maxTokens with
    | none => erase (erase obj "max_completion_tokens") "max_tokens"
    | some maxTokens =>
      let key :=
        if (get obj "max_completion_tokens").isSome ∨
            (get obj "max_tokens").isNone then "max_completion_tokens"
        else "max_tokens"
      insert obj key (u64.write maxTokens)

def patchChatStopSequences (edited before : Option GenerationParams) (obj : Object) : Object :=
  let stop := edited.bind (·.stop)
  if stop = before.bind (·.stop) then obj
  else
    setOrRemoveJson obj "stop" <| stop.map fun values =>
      match values with
      | [value] =>
        if (get obj "stop").any isString then .str value else strings [value]
      | values => strings values

def patchChatModelAndParams (annotated baseline : AnnotatedLlmRequest) : Object :=
  let obj := patchRecord modelFields annotated baseline obj
  if annotated.params = baseline.params then obj
  else
    obj
      |> patchChatOptionalParams annotated.params baseline.params
      |> patchChatMaxTokens annotated.params baseline.params
      |> patchChatStopSequences annotated.params baseline.params

def patchChatToolChoice : (edited before : Option ToolChoice) →
    Except FlowError (Option Json)
  | some edited, some before => do
    let edited ← encodeChatToolChoice edited
    let before ← encodeChatToolChoice before
    match get obj "tool_choice" with
    | some original => return some (patchChangedJson original before edited)
    | none => return some edited
  | some edited, none => some <$> encodeChatToolChoice edited
  | none, _ => .ok none

def patchChatToolDefinitions (edited before : Option (List ToolDefinition)) :
    Except FlowError Object :=
  if edited ≠ before then do
    let tools ← edited.mapM fun tools =>
      encodeChangedItems tools (before.getD []) ((get obj "tools").bind asArray) encodeChatTool
    return setOrRemoveJson obj "tools" (tools.map .arr)
  else .ok obj

def patchChatTools (annotated baseline : AnnotatedLlmRequest) :
    Except FlowError Object := do
  let obj ← patchChatToolDefinitions obj annotated.tools baseline.tools
  if annotated.toolChoice ≠ baseline.toolChoice then
    let toolChoice ← patchChatToolChoice obj annotated.toolChoice baseline.toolChoice
    return setOrRemoveJson obj "tool_choice" toolChoice
  else return obj

def patchChatCommonFields (annotated baseline : AnnotatedLlmRequest) : Object :=
  patchRecord commonFields annotated baseline obj

def patchChatApiFields (edited baseline : OpenAIChatFields) : Object :=
  patchRecord apiFields edited baseline obj

def patchChatApiSpecific (edited baseline : Option ApiSpecificRequest) : Except FlowError Object :=
  match edited, baseline with
  | some (.openAIChat edited), some (.openAIChat baseline) =>
    .ok (patchChatApiFields obj edited baseline)
  | none, some (.openAIChat _) => .ok (apiSpecificKeys.foldl erase obj)
  | none, none => .ok obj
  | _, _ => invalidArgument "api_specific provider does not match OpenAI Chat"

variable (annotated : AnnotatedLlmRequest)

def encodeObjectWithBaseline (obj : Object) (baseline : AnnotatedLlmRequest) :
    Except FlowError Object := do
  let obj ← patchChatMessagesAndValidate obj annotated baseline
  let obj := patchChatModelAndParams obj annotated baseline
  let obj ← patchChatTools obj annotated baseline
  let obj := patchChatCommonFields obj annotated baseline
  let obj ← patchChatApiSpecific obj annotated.apiSpecific baseline.apiSpecific
  return patchExtraFields obj baseline.extra annotated.extra

def encodeOwnedWithBaseline (original : LlmRequest) (baseline : AnnotatedLlmRequest) :
    Except FlowError LlmRequest :=
  match original.content with
  | .obj obj => do
    let obj ← encodeObjectWithBaseline annotated obj baseline
    return { original with content := .obj obj }
  | _ => .error (.internal "original content is not an object")

def encode (original : LlmRequest) :
    Except FlowError LlmRequest := do
  let baseline ← decode original
  encodeOwnedWithBaseline annotated original baseline

end NemoRelay.OpenAIChatCodec
