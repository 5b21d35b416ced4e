import NemoRelay.Adaptive.PromptIr

/-!
# Profile keys

The key under which the cache governor collects the observations of one prompt family. Requests
with a stable scaffold (a system prompt, tools, or an output contract) are told apart by the full
digests of the scaffold; the others by the digest of their first message.
-/

namespace NemoRelay.Acg

def hashPrefixLen : Nat := 16

/-- The characters of the first `n` bytes, if a character ends there. -/
def takeBytes : Nat → Text → Option Text
  | 0, _ => some []
  | _ + 1, [] => none
  | n + 1, c :: text =>
    if c.utf8Size ≤ n + 1 then (takeBytes (n + 1 - c.utf8Size) text).map (c :: ·) else none

def shortHash (value : String) : String :=
  ((takeBytes hashPrefixLen value.toList).map String.ofList).getD value

section Keys

variable [Canonicalization]

def hashCanonicalJson (value : Json) : String :=
  sha256Hex (match canonicalizeValue value with
    | .ok canonical => canonical
    | .error _ => printJson value)

/-- The role of a system or developer message, and its content. -/
def Message.systemContent : Message → Option (String × MessageContent)
  | .system content _ => some ("system", content)
  | .developer content _ => some ("developer", content)
  | _ => none

variable (request : AnnotatedLlmRequest)

/-- The contents of the system and developer messages, with their roles. -/
def systemContents : List (String × MessageContent) :=
  request.messages.filterMap Message.systemContent

def systemPromptFingerprint : String :=
  let instructions := request.instructions.map fun content =>
    Json.ofFields [("source", some (.str "instructions")), ("content", some (toValue content))] []
  let messages := (systemContents request).map fun entry =>
    Json.ofFields [("source", some (.str "message")), ("role", some (.str entry.1)),
      ("content", some (toValue entry.2))] []
  let systemContent := instructions.toList ++ messages
  if systemContent.isEmpty then "no-system" else hashCanonicalJson (.arr systemContent)

def toolSchemaFingerprint (tools : Option (List ToolDefinition)) : String :=
  match tools with
  | none => "no-tools"
  | some tools =>
    let canonicalTools := "|".intercalate (tools.filterMap fun tool =>
      (canonicalizeValue (toValue tool)).toOption)
    if canonicalTools.isEmpty then "tools-unavailable" else sha256Hex canonicalTools

def responseFormatFingerprint : Option String :=
  ((responseFormat request).bind fun value => (canonicalizeValue value).toOption).map sha256Hex

def ContentPart.profileText : ContentPart → String
  | .text text _ => text
  | .refusal refusal _ => refusal
  | .imageUrl imageUrl _ =>
    "[image:" ++ imageUrl.detail.getD "none" ++ ":" ++ sha256Hex imageUrl.url ++ "]"
  | part@(.image ..) | part@(.audio ..) | part@(.file ..) | part@(.toolUse ..)
  | part@(.toolResult ..) | part@(.providerNative ..) => printJson (toValue part)

/-- `extract_text` of the profile, which keeps images and empty parts. -/
def profileText : MessageContent → String
  | .text text => text
  | .parts parts => "\n".intercalate (parts.map ContentPart.profileText)

def Message.seedFingerprint : Message → Option String
  | .system .. | .developer .. => none
  | .user content _ => some ("user:" ++ sha256Hex (profileText content))
  | .assistant (some content) _ _ => some ("assistant:" ++ sha256Hex (profileText content))
  | .assistant none _ _ => some "assistant:no-content"
  | .tool content _ => some ("tool:" ++ sha256Hex (profileText content))
  | .function content name =>
    some ("function:" ++ hashCanonicalJson (.ofFields [("name", some (.str name)),
      ("content", some ((content.map .str).getD .null))] []))
  | .toolCallItem _ _ name arguments _ =>
    some ("tool-call:" ++ hashCanonicalJson (.ofFields [("name", some (.str name)),
      ("arguments", some arguments)] []))
  | .toolResultItem _ _ output _ => some ("tool-result:" ++ sha256Hex (printJson output))
  | .providerNative provider kind value =>
    some ("native:" ++ hashCanonicalJson (.ofFields [("provider", some (.str provider)),
      ("kind", some (.str kind)), ("value", some value)] []))

def learningSeedFingerprint : String :=
  (request.messages.findSome? Message.seedFingerprint).getD "no-seed"

structure AcgKeyParts where
  model : String
  systemHash : String
  toolHash : String
  responseFormatHash : Option String
  hasStableScaffold : Bool

def deriveKeyParts : AcgKeyParts :=
  let systemFingerprint := systemPromptFingerprint request
  let toolFingerprint := toolSchemaFingerprint request.tools
  let responseFormatFingerprint := responseFormatFingerprint request
  let hasStableScaffold := systemFingerprint ≠ "no-system" ||
    request.tools.any (fun tools => !tools.isEmpty) || responseFormatFingerprint.isSome
  { model := request.model.getD "unknown"
    systemHash := if hasStableScaffold then systemFingerprint else shortHash systemFingerprint
    toolHash := if hasStableScaffold then toolFingerprint else shortHash toolFingerprint
    responseFormatHash := responseFormatFingerprint
    hasStableScaffold := hasStableScaffold }

def deriveAcgLearningKey (agentId : String) (request : AnnotatedLlmRequest) : String :=
  let parts := deriveKeyParts request
  let seedHash :=
    if parts.hasStableScaffold then "stable-scaffold"
    else shortHash (learningSeedFingerprint request)
  let key := agentId ++ "::model=" ++ parts.model ++ "::seed=" ++ seedHash ++ "::system=" ++
    parts.systemHash ++ "::tools=" ++ parts.toolHash
  match parts.responseFormatHash with
  | some hash => key ++ "::response_format=" ++ hash
  | none => key

end Keys

end NemoRelay.Acg
