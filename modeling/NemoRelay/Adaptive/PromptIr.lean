import NemoRelay.Codec.Request
import NemoRelay.Codec.Sse

/-!
# Prompt intermediate representation

`build_prompt_ir` flattens an annotated request into addressable blocks: the instructions, the
leading system messages, the tool schemas, the output contract, and then the conversation. The
canonical JSON text of a value and the digest of a text come from libraries, which are the class
`Canonicalization`.
-/

namespace NemoRelay.Acg

open List

/-- What the cache governor takes from libraries: the RFC 8785 text of a value, the compact text
of `serde_json`, and the digest `sha256:…` of a text. -/
class Canonicalization where
  canonicalizer : Json → Except String String
  printJson : Json → String
  sha256Hex : String → String

export Canonicalization (printJson sha256Hex)

/-- Libraries that give every value the same text. -/
abbrev forgetful : Canonicalization := ⟨fun _ => .ok "", fun _ => "", id⟩

inductive AcgError
  | internal (message : String)

/-- `canonicalize_value`. -/
def canonicalizeValue [Canonicalization] (value : Json) : Except AcgError String :=
  (Canonicalization.canonicalizer value).mapError fun message =>
    .internal ("canonicalization failed: " ++ message)

/-! ### Whitespace -/

/-- The loop of `normalize_whitespace`, with the flag that a blank is pending. -/
def collapseBlanks : Bool → Text → Text
  | _, [] => []
  | pending, c :: text =>
    if c = '\n' then '\n' :: collapseBlanks false text
    else if Text.isWhitespace c then collapseBlanks true text
    else if pending then ' ' :: c :: collapseBlanks false text
    else c :: collapseBlanks false text

def normalizeWhitespace (text : String) : String :=
  String.ofList (collapseBlanks false (Text.trim text.toList))

/-! ### Blocks -/

inductive PromptRole
  | system
  | user
  | assistant
  | tool
  deriving DecidableEq

inductive BlockContentType
  | text
  | toolSchema
  | toolResult
  | structuredOutput
  | image
  deriving DecidableEq

inductive ProvenanceLabel
  | system
  | developer
  | user
  | tool
  | retrieval
  | memory
  deriving DecidableEq

structure TokenizationMetadata where
  modelFamily : String
  tokenCount : Nat

structure PromptBlock where
  spanId : String
  sequenceIndex : Nat
  role : PromptRole
  content : String
  contentType : BlockContentType
  provenance : ProvenanceLabel
  tokenMetadata : Option TokenizationMetadata

structure ToolSchemaHash where
  toolName : String
  schemaHash : String

structure PromptIR where
  blocks : List PromptBlock
  toolSchemaHashes : Option (List ToolSchemaHash)
  structuredOutputSchemaId : Option String
  sourceRequestHash : Option String

def PromptRole.text : PromptRole → String
  | system => "system"
  | user => "user"
  | assistant => "assistant"
  | tool => "tool"

variable (role : PromptRole)

def generateSpanId (index : Nat) (suffix : Option String) : String :=
  match suffix with
  | some suffix => role.text ++ "-" ++ toString index ++ "-" ++ suffix
  | none => role.text ++ "-" ++ toString index

/-! ### Building -/

/-- The blocks pushed so far, and the running sequence index. -/
structure Builder where
  blocks : List PromptBlock
  sequenceIndex : Nat

namespace Builder

def new : Builder := ⟨[], 0⟩

/-- What all block builders do: name the block after the running index, and advance it. -/
def push (builder : Builder) (role : PromptRole) (suffix : Option String) (content : String)
    (contentType : BlockContentType) (provenance : ProvenanceLabel) : Builder :=
  { blocks := builder.blocks ++
      [{ spanId := generateSpanId role builder.sequenceIndex suffix
         sequenceIndex := builder.sequenceIndex
         role := role
         content := content
         contentType := contentType
         provenance := provenance
         tokenMetadata := none }]
    sequenceIndex := builder.sequenceIndex + 1 }

end Builder

section Build

variable [Canonicalization]

def ContentPart.extractText : ContentPart → String
  | .text text _ => text
  | .refusal refusal _ => refusal
  | .imageUrl .. | .image .. => ""
  | part@(.audio ..) | part@(.file ..) | part@(.toolUse ..) | part@(.toolResult ..)
  | part@(.providerNative ..) => printJson (toValue part)

def extractText : MessageContent → String
  | .text text => text
  | .parts parts =>
    "\n".intercalate ((parts.map ContentPart.extractText).filter fun text => !text.isEmpty)

variable (builder : Builder)

def buildTextBlock (content : MessageContent) (role : PromptRole) (provenance : ProvenanceLabel)
    (suffix : Option String) : Builder :=
  builder.push role suffix (normalizeWhitespace (extractText content)) .text provenance

def buildToolResultBlock (content : MessageContent) (toolCallId : String) : Builder :=
  builder.push .tool (some toolCallId) (normalizeWhitespace (extractText content)) .toolResult .tool

def buildToolCallBlock (call : ToolCall) : Except AcgError Builder := do
  let canonical ← canonicalizeValue (toValue call)
  return builder.push .assistant (some call.function.name) (normalizeWhitespace canonical) .text
    .developer

def buildSerializedMessageBlock (message : Message) (role : PromptRole)
    (provenance : ProvenanceLabel) (suffix : Option String) : Except AcgError Builder := do
  let canonical ← canonicalizeValue (toValue message)
  return buildTextBlock builder (.text canonical) role provenance suffix

def appendAssistantBlocks (content : Option MessageContent) (toolCalls : Option (List ToolCall)) :
    Except AcgError Builder :=
  let builder :=
    match content with
    | some content => buildTextBlock builder content .assistant .developer none
    | none => builder
  (toolCalls.getD []).foldlM buildToolCallBlock builder

def appendMessageBlocks : Message → Except AcgError Builder
  | .system content _ => .ok (buildTextBlock builder content .system .system none)
  | .developer content _ =>
    .ok (buildTextBlock builder content .system .developer (some "developer"))
  | .user content _ => .ok (buildTextBlock builder content .user .user none)
  | .assistant content toolCalls _ => appendAssistantBlocks builder content toolCalls
  | .tool content toolCallId => .ok (buildToolResultBlock builder content toolCallId)
  | .function content name =>
    .ok (buildTextBlock builder (.text (content.getD "")) .tool .tool (some name))
  | message@(.toolCallItem _ _ name _ _) =>
    buildSerializedMessageBlock builder message .assistant .developer (some name)
  | message@(.toolResultItem _ callId _ _) =>
    buildSerializedMessageBlock builder message .tool .tool (some callId)
  | message@(.providerNative _ kind _) =>
    buildSerializedMessageBlock builder message .user .developer (some kind)

def toolDefinitionName : ToolDefinition → String
  | .function function _ => function.name
  | .providerNative _ kind _ => kind

def buildToolSchemaBlock (tool : ToolDefinition) :
    Except AcgError Builder := do
  let canonical ← canonicalizeValue (toValue tool)
  return builder.push .system (some (toolDefinitionName tool)) (normalizeWhitespace canonical)
    .toolSchema .system

def appendToolSchemaBlocks (tools : Option (List ToolDefinition)) : Except AcgError Builder :=
  (tools.getD []).foldlM buildToolSchemaBlock builder

def appendStructuredOutputBlock : Option String → Builder
  | some content =>
    builder.push .system (some "structured-output") content .structuredOutput .system
  | none => builder

/-- The tool schemas and the output contract. -/
def appendScaffoldBlocks (tools : Option (List ToolDefinition)) (structuredOutput : Option String)
    (builder : Builder) : Except AcgError Builder := do
  let builder ← appendToolSchemaBlocks builder tools
  return appendStructuredOutputBlock builder structuredOutput

def Message.isSystem : Message → Bool
  | .system .. | .developer .. => true
  | _ => false

/-- The loop over the messages. The flag says whether the scaffold blocks are in place; they go
before the first message that is not a system message, and last if there is none. -/
def appendMessages (tools : Option (List ToolDefinition)) (structuredOutput : Option String) :
    Bool → List Message → Builder → Except AcgError Builder
  | false, [], builder => appendScaffoldBlocks tools structuredOutput builder
  | true, [], builder => .ok builder
  | inserted, message :: messages, builder => do
    if !inserted && !Message.isSystem message then
      let builder ← appendScaffoldBlocks tools structuredOutput builder
      let builder ← appendMessageBlocks builder message
      appendMessages tools structuredOutput true messages builder
    else
      let builder ← appendMessageBlocks builder message
      appendMessages tools structuredOutput inserted messages builder

def buildToolSchemaHashes (tools : List ToolDefinition) : Except AcgError (List ToolSchemaHash) :=
  tools.mapM fun tool => do
    let canonical ← canonicalizeValue (toValue tool)
    return ⟨toolDefinitionName tool, sha256Hex canonical⟩

variable (request : AnnotatedLlmRequest)

def computeRequestHash : Except AcgError String := do
  let canonical ← canonicalizeValue (toValue request)
  return sha256Hex canonical

/-- The output contract of a request, `null` counting as none. -/
def responseFormat : Option Json :=
  (SortedMap.get request.extra "response_format").filter fun value => !value.isNull

def instructionsBuilder : Builder :=
  match request.instructions with
  | some instructions =>
    buildTextBlock Builder.new instructions .system .system (some "instructions")
  | none => Builder.new

def buildPromptIr : Except AcgError PromptIR := do
  let structuredOutput ← (responseFormat request).mapM canonicalizeValue
  let builder ← appendMessages request.tools structuredOutput false request.messages
    (instructionsBuilder request)
  let toolSchemaHashes ← request.tools.mapM buildToolSchemaHashes
  let sourceRequestHash ← computeRequestHash request
  return { blocks := builder.blocks
           toolSchemaHashes := toolSchemaHashes
           structuredOutputSchemaId := structuredOutput.map sha256Hex
           sourceRequestHash := some sourceRequestHash }

end Build

/-! ### Drafts

A draft is a block without its number. What a part of the request adds does not depend on where
it is added, except for the number. -/

structure Draft where
  role : PromptRole
  suffix : Option String
  content : String
  contentType : BlockContentType
  provenance : ProvenanceLabel

/-- The block of a draft at an index. -/
def Draft.block (index : Nat) (draft : Draft) : PromptBlock where
  spanId := generateSpanId draft.role index draft.suffix
  sequenceIndex := index
  role := draft.role
  content := draft.content
  contentType := draft.contentType
  provenance := draft.provenance
  tokenMetadata := none

namespace Builder

variable (builder : Builder)

def pushAll (drafts : List Draft) : Builder :=
  { blocks := builder.blocks ++ drafts.mapIdx fun i draft => draft.block (builder.sequenceIndex + i)
    sequenceIndex := builder.sequenceIndex + drafts.length }

@[simp] theorem pushAll_nil : builder.pushAll [] = builder := by
  simp [pushAll]

theorem pushAll_append (first second : List Draft) :
    (builder.pushAll first).pushAll second = builder.pushAll (first ++ second) := by
  simp only [pushAll, mapIdx_append, append_assoc, length_append, Nat.add_assoc,
    Nat.add_comm first.length]

/-- Loops that push drafts, and may fail. -/
theorem foldlM_pushAll {α : Type} {step : Builder → α → Except AcgError Builder}
    {drafts : α → Except AcgError (List Draft)}
    (h : ∀ builder a, step builder a = (drafts a).map builder.pushAll) (items : List α)
    (builder : Builder) :
    items.foldlM step builder =
      (items.mapM drafts).map fun lists => builder.pushAll lists.flatten := by
  induction items generalizing builder with
  | nil => simp [Except.map, pure, Except.pure]
  | cons item items ih =>
    rw [foldlM_cons, mapM_cons, h]
    cases drafts item with
    | error e => rfl
    | ok first =>
      simp only [Except.map, Except.bind, bind, ih]
      cases items.mapM drafts with
      | error e => rfl
      | ok rest => simp [pure, Except.pure, pushAll_append]

end Builder

variable {ir : PromptIR} {request : AnnotatedLlmRequest}

section Drafts

variable [Canonicalization]

def textDraft (content : MessageContent) (role : PromptRole) (provenance : ProvenanceLabel)
    (suffix : Option String) : Draft :=
  ⟨role, suffix, normalizeWhitespace (extractText content), .text, provenance⟩

def toolCallDrafts (call : ToolCall) : Except AcgError (List Draft) :=
  (canonicalizeValue (toValue call)).map fun canonical =>
    [⟨.assistant, some call.function.name, normalizeWhitespace canonical, .text, .developer⟩]

def serializedDrafts (message : Message) (role : PromptRole) (provenance : ProvenanceLabel)
    (suffix : Option String) : Except AcgError (List Draft) :=
  (canonicalizeValue (toValue message)).map fun canonical =>
    [textDraft (.text canonical) role provenance suffix]

def assistantDrafts (content : Option MessageContent) (toolCalls : Option (List ToolCall)) :
    Except AcgError (List Draft) :=
  ((toolCalls.getD []).mapM toolCallDrafts).map fun calls =>
    (content.map fun content => textDraft content .assistant .developer none).toList ++
      calls.flatten

def messageDrafts : Message → Except AcgError (List Draft)
  | .system content _ => .ok [textDraft content .system .system none]
  | .developer content _ => .ok [textDraft content .system .developer (some "developer")]
  | .user content _ => .ok [textDraft content .user .user none]
  | .assistant content toolCalls _ => assistantDrafts content toolCalls
  | .tool content toolCallId =>
    .ok [⟨.tool, some toolCallId, normalizeWhitespace (extractText content), .toolResult, .tool⟩]
  | .function content name => .ok [textDraft (.text (content.getD "")) .tool .tool (some name)]
  | message@(.toolCallItem _ _ name _ _) =>
    serializedDrafts message .assistant .developer (some name)
  | message@(.toolResultItem _ callId _ _) => serializedDrafts message .tool .tool (some callId)
  | message@(.providerNative _ kind _) => serializedDrafts message .user .developer (some kind)

def toolDrafts (tool : ToolDefinition) : Except AcgError (List Draft) :=
  (canonicalizeValue (toValue tool)).map fun canonical =>
    [⟨.system, some (toolDefinitionName tool), normalizeWhitespace canonical, .toolSchema, .system⟩]

def contractDrafts (structuredOutput : Option String) : List Draft :=
  (structuredOutput.map fun content =>
    ⟨.system, some "structured-output", content, .structuredOutput, .system⟩).toList

def instructionsDrafts (request : AnnotatedLlmRequest) : List Draft :=
  (request.instructions.map fun content =>
    textDraft content .system .system (some "instructions")).toList

open Builder

variable (builder : Builder)

theorem appendAssistantBlocks_eq (content : Option MessageContent)
    (toolCalls : Option (List ToolCall)) :
    appendAssistantBlocks builder content toolCalls =
      (assistantDrafts content toolCalls).map builder.pushAll := by
  have hcall : ∀ builder call, buildToolCallBlock builder call =
      (toolCallDrafts call).map builder.pushAll := by
    intro builder call
    unfold buildToolCallBlock toolCallDrafts
    cases canonicalizeValue (toValue call) <;> rfl
  unfold appendAssistantBlocks assistantDrafts
  rw [foldlM_pushAll hcall]
  cases (toolCalls.getD []).mapM toolCallDrafts with
  | error e => rfl
  | ok calls =>
    cases content with
    | none => rfl
    | some content =>
      exact congrArg Except.ok (pushAll_append builder
        [textDraft content .assistant .developer none] calls.flatten)

theorem appendMessageBlocks_eq (message : Message) :
    appendMessageBlocks builder message = (messageDrafts message).map builder.pushAll := by
  have hserialized : ∀ role provenance suffix,
      buildSerializedMessageBlock builder message role provenance suffix =
        (serializedDrafts message role provenance suffix).map builder.pushAll := by
    intro role provenance suffix
    unfold buildSerializedMessageBlock serializedDrafts
    cases canonicalizeValue (toValue message) <;> rfl
  cases message with
  | assistant content toolCalls name => exact appendAssistantBlocks_eq builder content toolCalls
  | toolCallItem id callId name arguments extra | toolResultItem id callId output extra
  | providerNative provider kind value => exact hserialized _ _ _
  | system content name | user content name | developer content name | tool content id
  | function content name => rfl

variable (tools : Option (List ToolDefinition)) (structuredOutput : Option String)

theorem appendScaffoldBlocks_eq :
    appendScaffoldBlocks tools structuredOutput builder =
      ((tools.getD []).mapM toolDrafts).map fun schemas =>
        builder.pushAll (schemas.flatten ++ contractDrafts structuredOutput) := by
  have htool : ∀ builder tool, buildToolSchemaBlock builder tool =
      (toolDrafts tool).map builder.pushAll := by
    intro builder tool
    unfold buildToolSchemaBlock toolDrafts
    cases canonicalizeValue (toValue tool) <;> rfl
  have hcontract : ∀ builder : Builder, appendStructuredOutputBlock builder structuredOutput =
      builder.pushAll (contractDrafts structuredOutput) := by
    intro builder
    cases structuredOutput with
    | none => exact (pushAll_nil builder).symm
    | some content => rfl
  unfold appendScaffoldBlocks appendToolSchemaBlocks
  rw [foldlM_pushAll htool]
  cases (tools.getD []).mapM toolDrafts with
  | error e => rfl
  | ok schemas =>
    simp only [Except.map, bind, Except.bind, pure, Except.pure, hcontract, pushAll_append]

/-- The drafts of a conversation: the leading system messages, the scaffold, the other
messages. -/
structure Layout where
  leading : List (List Draft)
  schemas : List (List Draft)
  contract : List Draft
  conversation : List (List Draft)

def Layout.drafts (layout : Layout) : List Draft :=
  layout.leading.flatten ++ layout.schemas.flatten ++ layout.contract ++ layout.conversation.flatten

/-- The drafts that the parts of a request give. -/
structure Layout.Of (layout : Layout) (tools : Option (List ToolDefinition))
    (structuredOutput : Option String) (messages : List Message) : Prop where
  leading : (messages.takeWhile Message.isSystem).mapM messageDrafts = .ok layout.leading
  schemas : (tools.getD []).mapM toolDrafts = .ok layout.schemas
  contract : layout.contract = contractDrafts structuredOutput
  conversation : (messages.dropWhile Message.isSystem).mapM messageDrafts = .ok layout.conversation

theorem appendMessages_true (messages : List Message) (builder : Builder) :
    appendMessages tools structuredOutput true messages builder =
      (messages.mapM messageDrafts).map fun lists => builder.pushAll lists.flatten := by
  rw [← foldlM_pushAll appendMessageBlocks_eq]
  induction messages generalizing builder with
  | nil => rfl
  | cons message messages ih =>
    rw [appendMessages]
    simp only [Bool.not_true, Bool.false_and, Bool.false_eq_true, if_false]
    exact congrArg _ (funext fun builder => ih builder)

theorem appendMessages_false {tools : Option (List ToolDefinition)}
    {structuredOutput : Option String} {messages : List Message} {builder after : Builder}
    (h : appendMessages tools structuredOutput false messages builder = .ok after) :
    ∃ layout : Layout, layout.Of tools structuredOutput messages ∧
      after = builder.pushAll layout.drafts := by
  induction messages generalizing builder with
  | nil =>
    rw [appendMessages, appendScaffoldBlocks_eq] at h
    obtain ⟨schemas, hschemas, rfl⟩ := map_eq_ok.mp h
    exact ⟨⟨[], schemas, contractDrafts structuredOutput, []⟩, ⟨rfl, hschemas, rfl, rfl⟩,
      by simp [Layout.drafts]⟩
  | cons message messages ih =>
    rw [appendMessages] at h
    cases hsystem : Message.isSystem message with
    | false =>
      -- The scaffold goes here, and the rest is the loop with the flag set.
      simp only [hsystem, appendScaffoldBlocks_eq, appendMessageBlocks_eq, appendMessages_true] at h
      obtain ⟨_, hscaffold, h⟩ := bind_eq_ok.mp h
      obtain ⟨_, hmessage, h⟩ := bind_eq_ok.mp h
      obtain ⟨schemas, hschemas, rfl⟩ := map_eq_ok.mp hscaffold
      obtain ⟨first, hfirst, rfl⟩ := map_eq_ok.mp hmessage
      obtain ⟨rest, hrest, rfl⟩ := map_eq_ok.mp h
      refine ⟨⟨[], schemas, contractDrafts structuredOutput, first :: rest⟩,
        ⟨?_, hschemas, rfl, ?_⟩, ?_⟩
      · rw [takeWhile_cons_of_neg (by simp [hsystem])]
        rfl
      · rw [dropWhile_cons_of_neg (by simp [hsystem]), mapM_cons, hfirst, hrest]
        rfl
      · simp [Layout.drafts, pushAll_append]
    | true =>
      simp only [hsystem, appendMessageBlocks_eq] at h
      obtain ⟨_, hmessage, h⟩ := bind_eq_ok.mp h
      obtain ⟨first, hfirst, rfl⟩ := map_eq_ok.mp hmessage
      obtain ⟨layout, hlayout, rfl⟩ := ih h
      refine ⟨{ layout with leading := first :: layout.leading }, ⟨?_, hlayout.schemas,
        hlayout.contract, ?_⟩, ?_⟩
      · rw [takeWhile_cons_of_pos hsystem, mapM_cons, hfirst, hlayout.leading]
        rfl
      · rw [dropWhile_cons_of_pos hsystem, hlayout.conversation]
      · simp [Layout.drafts, pushAll_append]

/-- The blocks of a prompt are the drafts of the parts of the request, numbered. -/
theorem buildPromptIr_eq_ok (h : buildPromptIr request = .ok ir) :
    ∃ structuredOutput : Option String, ∃ layout : Layout,
      (responseFormat request).mapM canonicalizeValue = .ok structuredOutput ∧
        layout.Of request.tools structuredOutput request.messages ∧
        ir.blocks = (instructionsDrafts request ++ layout.drafts).mapIdx Draft.block := by
  have hinstructions : instructionsBuilder request = new.pushAll (instructionsDrafts request) := by
    unfold instructionsBuilder instructionsDrafts
    cases request.instructions <;> rfl
  obtain ⟨structuredOutput, hcontract, h⟩ := bind_eq_ok.mp h
  obtain ⟨builder, hmessages, h⟩ := bind_eq_ok.mp h
  obtain ⟨hashes, -, h⟩ := bind_eq_ok.mp h
  obtain ⟨requestHash, -, ⟨⟩⟩ := bind_eq_ok.mp h
  obtain ⟨layout, hlayout, rfl⟩ := appendMessages_false hmessages
  refine ⟨structuredOutput, layout, hcontract, hlayout, ?_⟩
  rw [hinstructions, pushAll_append]
  simp [pushAll, new]

end Drafts

/-! ### Numbering -/

/-- The second of the parts that hyphens separate. -/
def spanIndexText (spanId : String) : Text :=
  ((spanId.toList.dropWhile (· ≠ '-')).drop 1).takeWhile (· ≠ '-')

theorem PromptRole.hyphen_notMem : '-' ∉ role.text.toList := by
  cases role <;> decide

theorem hyphen_notMem_toDigits (n : Nat) : '-' ∉ Nat.toDigits 10 n := by
  intro hmem
  exact absurd (Nat.isDigit_of_mem_toDigits (by decide) (by decide) hmem) (by decide)

theorem spanIndexText_generateSpanId (index : Nat) (suffix : Option String) :
    spanIndexText (generateSpanId role index suffix) = Nat.toDigits 10 index := by
  have hpos : ∀ {text : Text}, '-' ∉ text → ∀ c ∈ text, decide (c ≠ '-') = true := by
    intro text htext c hc
    refine decide_eq_true fun heq => htext ?_
    rwa [← heq]
  have hdigits := hpos (hyphen_notMem_toDigits index)
  cases suffix with
  | none =>
    simp only [spanIndexText, generateSpanId, String.toList_append, append_assoc]
    rw [dropWhile_append_of_pos (hpos role.hyphen_notMem)]
    simpa using @List.takeWhile_append_of_pos _ _ _ [] hdigits
  | some suffix =>
    simp only [spanIndexText, generateSpanId, String.toList_append, append_assoc]
    rw [dropWhile_append_of_pos (hpos role.hyphen_notMem)]
    simpa using @List.takeWhile_append_of_pos _ _ _ ('-' :: suffix.toList) hdigits

/-- A span identifier names its index. -/
theorem generateSpanId_index {role role' : PromptRole} {index index' : Nat}
    {suffix suffix' : Option String}
    (h : generateSpanId role index suffix = generateSpanId role' index' suffix') :
    index = index' := by
  have htext := congrArg (fun id => Nat.ofDigitChars 10 (spanIndexText id) 0) h
  simpa only [spanIndexText_generateSpanId,
    Nat.ofDigitChars_toDigits (by decide : 1 < 10) (by decide : 10 ≤ 10)] using htext

/-- Every block stands at the index that its identifier names. -/
def PromptIR.Indexed (ir : PromptIR) : Prop :=
  ∀ k block, ir.blocks[k]? = some block →
    block.sequenceIndex = k ∧ ∃ suffix, block.spanId = generateSpanId block.role k suffix

theorem indexed_of_buildPromptIr [Canonicalization] (h : buildPromptIr request = .ok ir) :
    ir.Indexed := by
  obtain ⟨_, layout, -, -, hblocks⟩ := buildPromptIr_eq_ok h
  intro k block hblock
  rw [hblocks, getElem?_mapIdx, Option.map_eq_some_iff] at hblock
  obtain ⟨draft, -, rfl⟩ := hblock
  exact ⟨rfl, draft.suffix, rfl⟩

/-- Two blocks of indexed prompts with the same identifier stand at the same index. -/
theorem PromptIR.Indexed.index_unique {ir' : PromptIR} (h : ir.Indexed) (h' : ir'.Indexed)
    {k k' : Nat} {block block' : PromptBlock} (hk : ir.blocks[k]? = some block)
    (hk' : ir'.blocks[k']? = some block') (hspan : block.spanId = block'.spanId) : k = k' := by
  obtain ⟨-, suffix, hid⟩ := h k block hk
  obtain ⟨-, suffix', hid'⟩ := h' k' block' hk'
  exact generateSpanId_index (hid.symm.trans (hspan.trans hid'))

/-- The spans of an indexed prompt differ. -/
theorem PromptIR.Indexed.nodup_spanIds (h : ir.Indexed) :
    (ir.blocks.map PromptBlock.spanId).Nodup := by
  rw [nodup_iff_getElem?_ne_getElem?]
  intro i j hij hj heq
  rw [length_map] at hj
  rw [getElem?_map, getElem?_map, getElem?_eq_getElem hj, getElem?_eq_getElem (hij.trans hj),
    Option.map_some, Option.map_some, Option.some_inj] at heq
  exact hij.ne (h.index_unique h (getElem?_eq_getElem (hij.trans hj)) (getElem?_eq_getElem hj) heq)

/-! ### Scaffold -/

def BlockContentType.isScaffold : BlockContentType → Bool
  | .toolSchema | .structuredOutput => true
  | _ => false

theorem isScaffold_flatten {α : Type} {f : α → Except AcgError (List Draft)} {items : List α}
    {lists : List (List Draft)} {scaffold : Bool} (h : items.mapM f = .ok lists)
    (hf : ∀ item drafts, f item = .ok drafts → ∀ draft ∈ drafts,
      draft.contentType.isScaffold = scaffold) :
    ∀ draft ∈ lists.flatten, draft.contentType.isScaffold = scaffold := by
  refine forall_mem_flatten.mpr fun drafts hdrafts => ?_
  obtain ⟨i, hi, rfl⟩ := getElem_of_mem hdrafts
  have hitems := mapM_eq_ok.mp h
  exact hf _ _ (hitems.get (hitems.length_eq ▸ hi) hi)

section Scaffold

variable [Canonicalization]

theorem isScaffold_messageDrafts (message : Message) (drafts : List Draft)
    (h : messageDrafts message = .ok drafts) :
    ∀ draft ∈ drafts, draft.contentType.isScaffold = false := by
  cases message with
  | assistant content toolCalls name =>
    obtain ⟨calls, hcalls, rfl⟩ := map_eq_ok.mp h
    refine forall_mem_append.mpr ⟨?_, isScaffold_flatten hcalls fun call drafts hcall => ?_⟩
    · cases content <;> simp [textDraft, BlockContentType.isScaffold]
    · obtain ⟨canonical, -, rfl⟩ := map_eq_ok.mp hcall
      exact forall_mem_singleton.mpr rfl
  | toolCallItem id callId name arguments extra | toolResultItem id callId output extra
  | providerNative provider kind value =>
    obtain ⟨canonical, -, rfl⟩ := map_eq_ok.mp h
    exact forall_mem_singleton.mpr rfl
  | system content name | user content name | developer content name | tool content id
  | function content name =>
    cases h
    exact forall_mem_singleton.mpr rfl

/-- The blocks of a prompt are numbered and their spans differ. The tool schemas and the output
contract stand together, before the blocks of the first message that is not a system message. -/
theorem blocks_of_buildPromptIr (h : buildPromptIr request = .ok ir) :
    (∀ (k : Nat) block, ir.blocks[k]? = some block → block.sequenceIndex = k) ∧
      (ir.blocks.map PromptBlock.spanId).Nodup ∧
      ∃ leading scaffold conversation,
        ir.blocks = (instructionsDrafts request ++ leading.flatten ++ scaffold ++
          conversation.flatten).mapIdx Draft.block ∧
        (request.messages.takeWhile Message.isSystem).mapM messageDrafts = .ok leading ∧
        (request.messages.dropWhile Message.isSystem).mapM messageDrafts = .ok conversation ∧
        (∀ draft ∈ scaffold, draft.contentType.isScaffold) ∧
        ∀ draft ∈ instructionsDrafts request ++ leading.flatten ++ conversation.flatten,
          draft.contentType.isScaffold = false := by
  have hindexed := indexed_of_buildPromptIr h
  obtain ⟨structuredOutput, layout, -, hlayout, hblocks⟩ := buildPromptIr_eq_ok h
  refine ⟨fun k block hk => (hindexed k block hk).1, hindexed.nodup_spanIds, layout.leading,
    layout.schemas.flatten ++ layout.contract, layout.conversation, ?_, hlayout.leading,
    hlayout.conversation, ?_, ?_⟩
  · simp only [hblocks, Layout.drafts, append_assoc]
  · refine forall_mem_append.mpr
      ⟨isScaffold_flatten hlayout.schemas fun tool drafts htool => ?_, ?_⟩
    · obtain ⟨canonical, -, rfl⟩ := map_eq_ok.mp htool
      exact forall_mem_singleton.mpr rfl
    · rw [hlayout.contract, contractDrafts]
      cases structuredOutput <;> simp [BlockContentType.isScaffold]
  -- no message has such a block, also not one of the tool calls it makes
  · refine forall_mem_append.mpr ⟨forall_mem_append.mpr ⟨?_, ?_⟩, ?_⟩
    · rw [instructionsDrafts]
      cases request.instructions <;> simp [textDraft, BlockContentType.isScaffold]
    · exact isScaffold_flatten hlayout.leading isScaffold_messageDrafts
    · exact isScaffold_flatten hlayout.conversation isScaffold_messageDrafts

end Scaffold

/-- A request with a system message, two tools, an output format and a conversation. -/
def scaffoldedRequest : AnnotatedLlmRequest :=
  let tool name : ToolDefinition := .function ⟨name, none, some (.obj []), none, []⟩ []
  { AnnotatedLlmRequest.ofMessages [.system (.text "be brief") none, .user (.text "hi") none,
      .assistant (some (.text "hello")) (some [⟨"call", "function", ⟨"read", "\x7b\x7d"⟩⟩]) none,
      .user (.text "bye") none] with
    tools := some [tool "read", tool "write"]
    extra := [("response_format", .obj [("type", .str "json_object")])] }

theorem blocks_of_buildPromptIr_scaffolded :
    letI := forgetful
    ∃ ir, buildPromptIr scaffoldedRequest = .ok ir ∧
      (∀ (k : Nat) block, ir.blocks[k]? = some block → block.sequenceIndex = k) ∧
      (ir.blocks.map PromptBlock.spanId).Nodup ∧
      ∃ leading scaffold conversation,
        ir.blocks = (leading.flatten ++ scaffold ++ conversation.flatten).mapIdx Draft.block ∧
        [Message.system (.text "be brief") none].mapM messageDrafts = .ok leading ∧
        (scaffoldedRequest.messages.drop 1).mapM messageDrafts = .ok conversation ∧
        (∀ draft ∈ scaffold, draft.contentType.isScaffold) ∧
        ∀ draft ∈ leading.flatten ++ conversation.flatten,
          draft.contentType.isScaffold = false := by
  let _ := forgetful
  have hbuild : ∃ ir, buildPromptIr scaffoldedRequest = .ok ir := ⟨_, rfl⟩
  exact hbuild.imp fun ir h => ⟨h, blocks_of_buildPromptIr h⟩

end NemoRelay.Acg
