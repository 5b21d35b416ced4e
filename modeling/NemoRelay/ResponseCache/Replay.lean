import NemoRelay.Codec.OpenAiChat.Streaming
import NemoRelay.ResponseCache.AnthropicReplay

/-!
# Replaying cached responses

A cached response is replayed as chunks of the provider that it came from. `replayIsLossy` checks
that collecting these chunks again gives the response back.

The collectors of the surfaces other than OpenAI Chat are the argument `others`.
-/

namespace NemoRelay

open SortedMap

inductive ProviderSurface
  | openAIChat
  | openAIResponses
  | anthropicMessages
  | ociGenAI
  | geminiGenerateContent
  deriving DecidableEq

namespace ProviderSurface

def detectGeminiResponse (obj : Object) : Bool :=
  (get obj "candidates").any Json.isArray ||
    (get obj "promptFeedback").any fun feedback => feedback.asObject.any fun feedback =>
      (get feedback "blockReason").isSome || (get feedback "safetyRatings").isSome

def detectOciResponse (obj : Object) : Bool :=
  match get obj "chatResponse" with
  | some (.obj chatResponse) => (get chatResponse "apiFormat").isSome
  | _ => (get obj "apiFormat").isSome

def detectResponse (surface : ProviderSurface) (obj : Object) : Bool :=
  match surface with
  | openAIResponses =>
    (get obj "output").any Json.isArray || (get obj "output_text").any Json.isString
  | anthropicMessages =>
    (get obj "type").bind Json.asStr = some "message" && (get obj "content").any Json.isArray
  | ociGenAI => detectOciResponse obj
  | openAIChat => (get obj "choices").any Json.isArray
  | geminiGenerateContent => detectGeminiResponse obj

def builtinProviderSurfaces : List ProviderSurface :=
  [openAIResponses, anthropicMessages, ociGenAI, openAIChat, geminiGenerateContent]

end ProviderSurface

/-- A response is classified only if exactly one surface matches. -/
def detectResponseSurface (raw : Json) : Option ProviderSurface :=
  raw.asObject.bind fun obj =>
    match ProviderSurface.builtinProviderSurfaces.filter (·.detectResponse obj) with
    | [surface] => some surface
    | _ => none

/-- A collector of streamed chunks. -/
structure StreamingCodec where
  State : Type
  init : State
  collect : State → Json → Except FlowError State
  finalize : State → Json

def OpenAIChatCodec.streamingCodec : StreamingCodec where
  State := OpenAIChatCodec.StreamingState
  init := {}
  collect state chunk := .ok (state.observe chunk)
  finalize := OpenAIChatCodec.StreamingState.finalize

def streamingCodec (others : ProviderSurface → StreamingCodec) : ProviderSurface → StreamingCodec
  | .openAIChat => OpenAIChatCodec.streamingCodec
  | surface => others surface

namespace ResponseCache

/-! ### OpenAI Chat chunks -/

/-- A chunk with the members that every chunk of the stream repeats. -/
def chatChunk (aggregate choices : Json) : Object :=
  insertFields []
    [("id", aggregate.get "id"), ("created", aggregate.get "created"),
      ("model", aggregate.get "model"), ("object", some (.str "chat.completion.chunk")),
      ("choices", some choices)]

/-- One item of the `choices` of a chunk. -/
def chatChoice (index : Nat) (delta finishReason : Json) : Json :=
  .obj [("delta", delta), ("finish_reason", finishReason), ("index", indexJson index)]

/-- A tool call with its position, unless it carries one. -/
def chatToolCallDelta (call : Json) (index : Nat) : Json :=
  match call with
  | .obj obj =>
    if (get obj "index").isSome then .obj obj
    else .obj (insert obj "index" (indexJson index))
  | call => call

/-- The items that are sent for one choice, one in a chunk. -/
def chatChoiceItems (position : Nat) (choice : Json) : List Json :=
  let index := ((choice.get "index").bind Json.asU64).getD position
  let message := (choice.get "message").getD (.obj [])
  let role := (message.get "role").map fun role => chatChoice index (.obj [("role", role)]) .null
  let content := (((message.get "content").bind Json.asStr).filter (· ≠ "")).map fun content =>
    chatChoice index (.obj [("content", .str content)]) .null
  let toolCalls := ((message.get "tool_calls").bind Json.asArray).map fun calls =>
    chatChoice index
      (.obj [("tool_calls", .arr (calls.zipIdx.map fun call => chatToolCallDelta call.1 call.2))])
      .null
  let finish := chatChoice index (.obj []) ((choice.get "finish_reason").getD .null)
  role.toList ++ content.toList ++ toolCalls.toList ++ [finish]

def synthesizeChatChunks (aggregate : Json) : List Json :=
  let choices := ((aggregate.get "choices").bind Json.asArray).getD []
  let items := choices.zipIdx.flatMap fun choice => chatChoiceItems choice.2 choice.1
  let usage := (aggregate.get "usage").map fun usage =>
    Json.obj (insert (chatChunk aggregate (.arr [])) "usage" usage)
  (items.map fun item => Json.obj (chatChunk aggregate (.arr [item]))) ++ usage.toList

/-! ### OpenAI Responses chunks -/

def synthesizeResponsesChunks (aggregate : Json) : List Json :=
  let created := insertFields []
    [("id", aggregate.get "id"), ("object", aggregate.get "object"),
      ("model", aggregate.get "model"), ("status", some (.str "in_progress"))]
  let items := ((aggregate.get "output").bind Json.asArray).getD []
  Json.obj [("response", .obj created), ("sequence_number", indexJson 0),
      ("type", .str "response.created")] ::
    (items.zipIdx.map fun item => Json.obj
      [("item", item.1), ("output_index", indexJson item.2),
        ("sequence_number", indexJson (item.2 + 1)), ("type", .str "response.output_item.done")]) ++
    [Json.obj [("response", aggregate), ("sequence_number", indexJson (items.length + 1)),
      ("type", .str "response.completed")]]

/-! ### Replay -/

def synthesizeReplayChunks (printJson : Json → String) (aggregate : Json)
    (kind : Option AnthropicResponseKind) : Option (List Json) :=
  (detectResponseSurface aggregate).map fun
    | .anthropicMessages => synthesizeAnthropicChunks printJson aggregate kind
    | .openAIChat => synthesizeChatChunks aggregate
    | .openAIResponses => synthesizeResponsesChunks aggregate
    | .ociGenAI | .geminiGenerateContent => [aggregate]

def stripChoiceMetadata (choice : Json) : Json :=
  match choice with
  | .obj obj =>
    if (get obj "logprobs").any Json.isNull then .obj (erase obj "logprobs")
    else .obj obj
  | choice => choice

/-- Drops the members that the collectors do not keep and that are not part of the answer. -/
def stripStreamMetadata (aggregate : Json) : Json :=
  match aggregate with
  | .obj obj =>
    let obj := erase (erase obj "system_fingerprint") "service_tier"
    match get obj "choices" with
    | some (.arr choices) =>
      .obj (insert obj "choices" (.arr (choices.map stripChoiceMetadata)))
    | _ => .obj obj
  | aggregate => aggregate

/-- Whether the chunks that are replayed for a response give another response when collected. -/
def replayIsLossy (others : ProviderSurface → StreamingCodec) (printJson : Json → String)
    (aggregate : Json) (kind : Option AnthropicResponseKind) : Bool :=
  match detectResponseSurface aggregate with
  | none => true
  | some surface =>
    let codec := streamingCodec others surface
    let chunks := (synthesizeReplayChunks printJson aggregate kind).getD []
    match chunks.foldlM codec.collect codec.init with
    | .error _ => true
    | .ok state => stripStreamMetadata (codec.finalize state) ≠ stripStreamMetadata aggregate

end ResponseCache

end NemoRelay
