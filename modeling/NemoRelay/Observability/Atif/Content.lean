import NemoRelay.Codec.Sse
import NemoRelay.Observability.Event

/-!
# Messages and tool calls of trajectories

What a trajectory shows of a payload: the message of a user, the message of a response, and the
tool calls that a response makes. Payloads come in the forms of several providers.
-/

namespace NemoRelay.Observability

open SortedMap Json

/-- A member that is a text. -/
def textMember (value : Json) (key : String) : Option String := (value.get key).bind asStr

/-- A member that is true or false. -/
def boolMember (value : Json) (key : String) : Option Bool :=
  match value.get key with
  | some (.bool flag) => some flag
  | _ => none

def joinLines (lines : List String) : String := "\n".intercalate lines

def emptyMessage : Json := .str ""

def unwrapLlmRequest (input : Json) : Json :=
  if (input.get "headers").isSome then (input.get "content").getD input else input

/-! ### Content parts -/

def atifImageSource (source : Json) : Option Json := do
  let mediaType ← textMember source "media_type"
  let path ← textMember source "path"
  if mediaType ∈ ["image/jpeg", "image/png", "image/gif", "image/webp"] then
    some (.obj [("media_type", .str mediaType), ("path", .str path)])
  else none

def canonicalizeAtifContentPart (part : Json) : Option Json := do
  match ← textMember part "type" with
  | "text" => return .obj [("text", .str (← textMember part "text")), ("type", .str "text")]
  | "image" =>
    return .obj [("source", ← atifImageSource (← part.get "source")), ("type", .str "image")]
  | _ => none

def canonicalizeAtifContentParts (value : Json) : Option (List Json) :=
  value.asArray.bind (·.mapM canonicalizeAtifContentPart)

section Texts

variable [Texts]

/-- Parts that are all text become one text. -/
def atifContentValue (value : Json) : Json :=
  match value with
  | .str _ => value
  | .null => emptyMessage
  | _ =>
    match canonicalizeAtifContentParts value with
    | some parts =>
      match parts.mapM (textMember · "text") with
      | some texts => .str (joinLines texts)
      | none => .arr parts
    | none => .str (jsonToString value)

/-- Parts that cannot be shown are left out. -/
def atifUserContentValue (value : Json) : Json :=
  match value with
  | .arr parts => atifContentValue (.arr (parts.filterMap canonicalizeAtifContentPart))
  | _ => atifContentValue value

/-! ### Messages of responses -/

def nonNullObjectField (object : Json) (key : String) : Option Json :=
  (object.get key).filter fun value => !value.isNull

variable (output : Json)

/-- `raw_response_message_field`: a field of the first choice. -/
def rawResponseMessageField (field : String) : Option Json := do
  let object ← output.asObject
  let rawResponse := (get object "raw_response").getD output
  let choices ← (rawResponse.get "choices").bind asArray
  let choice ← choices.head?
  (← choice.get "message").get field

def toolCallArray : Option (List Json) :=
  ((output.get "tool_calls").bind asArray).or <|
    (((output.get "assistant_message").bind (·.get "tool_calls")).bind asArray).or <|
      (rawResponseMessageField output "tool_calls").bind asArray

/-- The texts of the blocks of one type. -/
def collectOpenaiResponsesContentText (content : List Json) (blockType : String) : List String :=
  content.filterMap fun block =>
    if textMember block "type" = some blockType then textMember block "text" else none

def collectOpenaiResponsesOutputText (item : Json) : List String :=
  match textMember item "type" with
  | some "message" =>
    match (item.get "content").bind asArray with
    | some content => collectOpenaiResponsesContentText content "output_text"
    | none => []
  | some "output_text" => (textMember item "text").toList
  | _ => []

def openaiResponsesOutputMessage : Option Json :=
  match textMember output "output_text" with
  | some outputText => some (.str outputText)
  | none => do
    let items ← (output.get "output").bind asArray
    let texts := items.flatMap collectOpenaiResponsesOutputText
    if texts.isEmpty then none else some (.str (joinLines texts))

def anthropicMessagesContentMessage (output content : Json) : Option Json := do
  if textMember output "type" = some "message" then
    let blocks ← content.asArray
    let texts := blocks.filterMap fun block =>
      if textMember block "type" = some "text" then
        (textMember block "text").filter fun text => !(Text.trim text.toList).isEmpty
      else none
    let hasToolUse := blocks.any fun block => textMember block "type" = some "tool_use"
    if !texts.isEmpty then some (.str (joinLines texts))
    else if hasToolUse then some emptyMessage
    else none
  else none

def extractContentMessage (output content : Json) : Json :=
  (anthropicMessagesContentMessage output content).getD (atifContentValue content)

def assistantMessageContent : Option Json :=
  (output.get "assistant_message").bind (nonNullObjectField · "content")

def extractObjectLlmResponseMessage : Option Json :=
  ((nonNullObjectField output "content").map (extractContentMessage output)).or <|
    ((assistantMessageContent output).map atifContentValue).or <|
      (((rawResponseMessageField output "content").filter fun value => !value.isNull).map
        atifContentValue).or <|
        ((nonNullObjectField output "answer").map atifContentValue).or <|
          (openaiResponsesOutputMessage output).or <|
            (toolCallArray output).map fun _ => emptyMessage

def extractLlmResponseMessage : Json :=
  (extractObjectLlmResponseMessage output).getD (atifContentValue output)

/-! ### Messages of users -/

def openaiResponsesInputContentMessage (content : Json) : Option Json :=
  match content with
  | .str _ => some (atifContentValue content)
  | .arr parts =>
    match collectOpenaiResponsesContentText parts "input_text" with
    | [] =>
      match collectOpenaiResponsesContentText parts "text" with
      | [] => some (atifUserContentValue content)
      | texts => some (.str (joinLines texts))
    | texts => some (.str (joinLines texts))
  | _ => none

def openaiResponsesInputItemMessage (item : Json) : Option Json :=
  if textMember item "role" = some "user" then
    (item.get "content").bind openaiResponsesInputContentMessage
  else none

def openaiResponsesInputMessage (input : Json) : Option Json :=
  match input with
  | .str _ => some (atifContentValue input)
  | .arr items => items.reverse.findSome? openaiResponsesInputItemMessage
  | _ => none

/-- The last message that a user may have sent. -/
def lastUserMessage (messages : List Json) : Option Json :=
  (messages.filter (·.isObject)).reverse.find? fun message =>
    match textMember message "role" with
    | some role => role = "user"
    | none => true

def extractUserMessageContent (input : Json) : Json :=
  let chatMessage := (((input.get "messages").bind asArray).bind lastUserMessage).bind
    (·.get "content")
  ((chatMessage.or ((input.get "input").bind openaiResponsesInputMessage)).or
    (input.get "prompt")).getD input

end Texts

/-! ### Tool calls -/

structure AtifToolCall where
  toolCallId : String
  functionName : String
  arguments : Json
  extra : Option Json

inductive ToolCallOrigin
  | generic
  | openAiResponses
  | anthropicMessages

/-- Responses tell the identifier of an item from that of the invocation. -/
def toolCallIdForOrigin (toolCall : Json) (origin : ToolCallOrigin) : Option String :=
  let fields := match origin with
    | .openAiResponses => ["call_id", "id", "tool_call_id"]
    | .generic | .anthropicMessages => ["id", "tool_call_id", "call_id"]
  fields.findSome? fun field => (textMember toolCall field).filter (· ≠ "")

def openaiResponsesFunctionCallItems (output : Json) : Option (List Json) := do
  let items ← (output.get "output").bind asArray
  let calls := items.filter fun item => textMember item "type" = some "function_call"
  if calls.isEmpty then none else some calls

def anthropicMessagesToolUseItems (output : Json) : Option (List Json) := do
  if textMember output "type" = some "message" then
    let blocks ← (output.get "content").bind asArray
    let uses := blocks.filter fun item => textMember item "type" = some "tool_use"
    if uses.isEmpty then none else some uses
  else none

/-- Keys that the fields of a tool call are read from. -/
def toolCallKeys : List String :=
  ["id", "tool_call_id", "call_id", "type", "function", "name", "tool_name", "function_name",
    "arguments", "args", "input"]

def toolCallExtra (toolCall : Json) : Option Json := do
  let object ← toolCall.asObject
  let extra := object.filter fun entry => entry.1 ∉ toolCallKeys
  let functionExtra := (((get object "function").bind asObject).getD []).filter
    fun entry => entry.1 ≠ "name" && entry.1 ≠ "arguments"
  let extra :=
    if functionExtra.isEmpty then extra else insert extra "function" (.obj functionExtra)
  if extra.isEmpty then none else some (.obj extra)

section Texts

variable [Texts]

def normalizeToolArguments (rawArguments : Option Json) : Json :=
  match rawArguments with
  | none | some .null => .obj []
  | some (.obj entries) => .obj entries
  | some (.str arguments) =>
    match parseJson arguments with
    | some (.obj entries) => .obj entries
    | some value => .obj [("value", value)]
    | none => .obj [("raw", .str arguments)]
  | some value => .obj [("value", value)]

/-- One call of a response; a call without a name and an identifier is none. -/
def extractToolCall (origin : ToolCallOrigin) (index : Nat) (toolCall : Json) :
    Option AtifToolCall := do
  let object ← toolCall.asObject
  let function := (get object "function").filter (·.isObject)
  let name := ((((((function.bind (·.get "name")).or (get object "name")).or
    (get object "toolName")).or (get object "tool_name")).or
      (get object "function_name")).bind asStr).getD ""
  let givenId := (toolCallIdForOrigin toolCall origin).getD ""
  let id := if givenId = "" && name ≠ "" then name ++ ":" ++ toString (index + 1) else givenId
  let rawArguments := (((function.bind (·.get "arguments")).or (get object "arguments")).or
    (get object "args")).or (get object "input")
  if id = "" && name = "" then none
  else some ⟨id, name, normalizeToolArguments rawArguments, toolCallExtra toolCall⟩

def extractToolCalls (output : Json) : Option (List AtifToolCall) := do
  let (calls, origin) ←
    match (toolCallArray output).filter (!·.isEmpty) with
    | some calls => some (calls, ToolCallOrigin.generic)
    | none =>
      match openaiResponsesFunctionCallItems output with
      | some calls => some (calls, .openAiResponses)
      | none => (anthropicMessagesToolUseItems output).map (·, .anthropicMessages)
  let extracted := (calls.mapIdx (extractToolCall origin)).reduceOption
  if extracted.isEmpty then none else some extracted

def portableToolCalls (calls : List TelemetryToolCall) : Option (List AtifToolCall) :=
  if calls.isEmpty then none
  else some (calls.map fun call => ⟨call.id, call.name, call.arguments, call.extra⟩)

/-- The host's view of the calls, if it has one, and otherwise the raw response. -/
def eventToolCalls [ObservabilityHost] (event : Event) : Option (List AtifToolCall) :=
  match event.telemetryLlmToolCalls with
  | some calls => portableToolCalls calls
  | none => event.output.bind extractToolCalls

end Texts

end NemoRelay.Observability
