import NemoRelay.Codec.Fields

/-!
# Cached Anthropic responses

Which aggregate responses may be cached, and the validator that checks that the chunks of a
stream form a complete message.

A chunk that the validator rejects makes it invalid for good, and nothing else of its state is
read afterwards. So the steps below give `none` for a rejected chunk, and `observe` keeps the
state of the last accepted one.
-/

namespace NemoRelay.ResponseCache

open Json

inductive AnthropicProtocol
  | thresholdV1
  | onDemandV1
  deriving DecidableEq

inductive AnthropicOperation
  | pausedThreshold
  | thresholdContinuation
  | thresholdRecompact
  | onDemandSummarize
  | onDemandContinuation
  | onDemandRecompact

inductive AnthropicResponseKind
  | ordinary
  | thresholdCompaction
  | onDemandCompaction
  deriving DecidableEq

structure AnthropicCacheContext where
  version : String
  betaTokens : List String
  protocol : AnthropicProtocol
  operation : AnthropicOperation

/-! ### Checks of single members -/

variable (value : Json)

def hasOnlyFields (allowed : List String) : Bool :=
  value.asObject.any fun obj => onlyKeys obj allowed

def isNullOrString : Bool := value.isNull || value.isString

def nullableResponseMetadataIsValid (fields : List String) : Bool :=
  fields.all fun field => (value.get field).all isNull

def serviceTierIsValid : Bool :=
  value.isNull || value.asStr.any fun tier => tier ∈ ["standard", "priority", "batch"]

def contextManagementResponseIsValid : Bool :=
  value.isNull || value.asObject.any fun obj =>
    obj.length = 1 && (SortedMap.get obj "applied_edits").any isArray

variable (block : Json)

def blockType : Option String := (block.get "type").bind asStr

def isCompaction : Bool := blockType block = some "compaction"

def validCompactionIterations : Bool :=
  value.asArray.any fun iterations => !iterations.isEmpty && iterations.any isCompaction

def thresholdResponseBlockIsValid : Bool :=
  hasOnlyFields block ["type", "content", "encrypted_content"] &&
    (block.get "content").any isString && (block.get "encrypted_content").all isNullOrString

def onDemandResponseBlockIsValid : Bool :=
  hasOnlyFields block ["type", "content", "signature"] &&
    (block.get "content").any isString &&
    ((block.get "signature").bind asStr).any fun signature => signature ≠ ""

def operationAllowsOrdinary : AnthropicOperation → Bool
  | .pausedThreshold | .thresholdContinuation | .thresholdRecompact | .onDemandContinuation => true
  | .onDemandSummarize | .onDemandRecompact => false

def operationAllowsThresholdCompaction : AnthropicOperation → Bool
  | .pausedThreshold | .thresholdRecompact => true
  | _ => false

def operationAllowsOnDemandCompaction : AnthropicOperation → Bool
  | .onDemandSummarize | .onDemandRecompact => true
  | _ => false

/-! ### Aggregate responses -/

/-- The checks that every cacheable response passes before its content is looked at. -/
def aggregateMembersAreValid (response : Json) : Bool :=
  hasOnlyFields response ["id", "type", "role", "model", "content", "stop_reason",
      "stop_sequence", "usage", "context_management", "container", "stop_details", "diagnostics",
      "service_tier"] &&
    (response.get "id").any isString &&
    (response.get "type").bind asStr = some "message" &&
    (response.get "role").bind asStr = some "assistant" &&
    (response.get "model").any isString &&
    (response.get "stop_reason").any isString &&
    (response.get "stop_sequence").all isNullOrString &&
    (response.get "context_management").all contextManagementResponseIsValid &&
    nullableResponseMetadataIsValid response ["container", "stop_details", "diagnostics"] &&
    (response.get "service_tier").all serviceTierIsValid

def stopReason (response : Json) : Option String := (response.get "stop_reason").bind asStr

def classifyCompaction (context : AnthropicCacheContext) (block : Json) :
    Option AnthropicResponseKind :=
  match context.protocol with
  | .thresholdV1 =>
    if operationAllowsThresholdCompaction context.operation && thresholdResponseBlockIsValid block
    then some .thresholdCompaction else none
  | .onDemandV1 =>
    if operationAllowsOnDemandCompaction context.operation && onDemandResponseBlockIsValid block
    then some .onDemandCompaction else none

def classifyAggregate (response : Json) (context : AnthropicCacheContext) :
    Option AnthropicResponseKind :=
  if !aggregateMembersAreValid response then none
  else
    match (response.get "content").bind asArray with
    | none => none
    | some content =>
      if content.isEmpty || !(response.get "usage").any isObject then none
      else if (content.filter isCompaction).length = 0 then
        if operationAllowsOrdinary context.operation && stopReason response ≠ some "compaction"
        then some .ordinary else none
      else
        match content with
        | [block] =>
          if stopReason response = some "compaction" &&
              (((response.get "usage").bind fun usage => usage.get "iterations").any
                validCompactionIterations) then
            classifyCompaction context block
          else none
        | _ => none

/-! ### The stream validator -/

structure BlockState where
  kind : Option String := none
  compactionDeltaCount : Nat := 0
  stopped : Bool := false

structure AnthropicStreamValidator where
  protocol : AnthropicProtocol
  blocks : List (Nat × BlockState) := []
  activeBlock : Option Nat := none
  nextBlockIndex : Nat := 0
  messageStarted : Bool := false
  messageDeltaSeen : Bool := false
  messageStopped : Bool := false
  valid : Bool := true

namespace AnthropicStreamValidator

def new (context : AnthropicCacheContext) : AnthropicStreamValidator :=
  { protocol := context.protocol }

def messageStartIsValid (message : Json) : Bool :=
  hasOnlyFields message ["id", "type", "role", "model", "content", "stop_reason",
      "stop_sequence", "usage", "container", "stop_details", "diagnostics", "service_tier"] &&
    (message.get "id").any isString &&
    (message.get "type").bind asStr = some "message" &&
    (message.get "role").bind asStr = some "assistant" &&
    (message.get "model").any isString &&
    ((message.get "content").bind asArray).any List.isEmpty &&
    (message.get "stop_reason").any isNull && (message.get "stop_sequence").any isNull &&
    (message.get "usage").any isObject &&
    nullableResponseMetadataIsValid message ["container", "stop_details", "diagnostics"] &&
    (message.get "service_tier").all serviceTierIsValid

variable (validator : AnthropicStreamValidator) (chunk : Json)

def observeMessageStart :
    Option AnthropicStreamValidator := do
  guard (!validator.messageStarted && hasOnlyFields chunk ["type", "message"])
  let message ← chunk.get "message"
  guard (messageStartIsValid message)
  return { validator with messageStarted := true }

/-- A compaction block starts empty in the threshold protocol and complete in the other one. -/
def blockStartIsValid (protocol : AnthropicProtocol) (block : Json) : Bool :=
  match protocol with
  | .thresholdV1 =>
    hasOnlyFields block ["type", "content"] && (block.get "content").any isNull
  | .onDemandV1 => onDemandResponseBlockIsValid block

def observeBlockStart :
    Option AnthropicStreamValidator := do
  guard (validator.messageStarted && !validator.messageDeltaSeen &&
    validator.activeBlock.isNone && hasOnlyFields chunk ["type", "index", "content_block"])
  let index ← (chunk.get "index").bind asU64
  guard (index = validator.nextBlockIndex)
  let block ← chunk.get "content_block"
  let kind ← blockType block
  guard (kind ≠ "compaction" || blockStartIsValid validator.protocol block)
  guard (SortedMap.get validator.blocks index).isNone
  return { validator with
    blocks := SortedMap.insert validator.blocks index { kind := some kind }
    activeBlock := some index
    nextBlockIndex := validator.nextBlockIndex + 1 }

def ordinaryDeltaIsReplayable (blockKind : Option String) (delta : Json) : Bool :=
  match blockKind, blockType delta with
  | some "text", some "text_delta" =>
    hasOnlyFields delta ["type", "text"] && (delta.get "text").any isString
  | some "tool_use", some "input_json_delta" =>
    hasOnlyFields delta ["type", "partial_json"] && (delta.get "partial_json").any isString
  | _, _ => false

def compactionDeltaIsValid (delta : Json) : Bool :=
  hasOnlyFields delta ["type", "content", "encrypted_content"] &&
    blockType delta = some "compaction_delta" && (delta.get "content").any isString &&
    (delta.get "encrypted_content").all isNullOrString

def observeBlockDelta :
    Option AnthropicStreamValidator := do
  guard (hasOnlyFields chunk ["type", "index", "delta"])
  let index ← (chunk.get "index").bind asU64
  guard (validator.activeBlock = some index)
  let delta ← chunk.get "delta"
  let block ← SortedMap.get validator.blocks index
  if block.kind ≠ some "compaction" then
    guard (ordinaryDeltaIsReplayable block.kind delta)
    return validator
  else
    guard (validator.protocol = .thresholdV1 && compactionDeltaIsValid delta)
    let count := min (block.compactionDeltaCount + 1) 255
    guard (count = 1)
    return { validator with
      blocks :=
        SortedMap.insert validator.blocks index { block with compactionDeltaCount := count } }

def observeBlockStop :
    Option AnthropicStreamValidator := do
  guard (hasOnlyFields chunk ["type", "index"])
  let index ← (chunk.get "index").bind asU64
  guard (validator.activeBlock = some index)
  let block ← SortedMap.get validator.blocks index
  guard (!block.stopped && !(block.kind = some "compaction" &&
    validator.protocol = .thresholdV1 && block.compactionDeltaCount ≠ 1))
  return { validator with
    blocks := SortedMap.insert validator.blocks index { block with stopped := true }
    activeBlock := none }

def messageDeltaIsValid (delta : Json) : Bool :=
  hasOnlyFields delta ["stop_reason", "stop_sequence", "container", "stop_details"] &&
    nullableResponseMetadataIsValid delta ["container", "stop_details"]

def observeMessageDelta :
    Option AnthropicStreamValidator := do
  guard (validator.messageStarted && !validator.messageDeltaSeen &&
    validator.activeBlock.isNone &&
    hasOnlyFields chunk ["type", "delta", "usage", "context_management"] &&
    (chunk.get "delta").any messageDeltaIsValid && (chunk.get "usage").any isObject &&
    (chunk.get "context_management").all contextManagementResponseIsValid)
  return { validator with messageDeltaSeen := true }

def observeMessageStop :
    Option AnthropicStreamValidator := do
  guard (validator.messageStarted && validator.messageDeltaSeen && !validator.messageStopped &&
    validator.activeBlock.isNone && hasOnlyFields chunk ["type"])
  return { validator with messageStopped := true }

/-- What the validator does with a chunk while it is valid. -/
def accept : Option AnthropicStreamValidator :=
  match blockType chunk with
  | some "ping" =>
    if hasOnlyFields chunk ["type"] && !validator.messageStopped then some validator else none
  | some "message_start" => validator.observeMessageStart chunk
  | some "message_delta" => validator.observeMessageDelta chunk
  | some "message_stop" => validator.observeMessageStop chunk
  | some "content_block_start" => validator.observeBlockStart chunk
  | some "content_block_delta" => validator.observeBlockDelta chunk
  | some "content_block_stop" => validator.observeBlockStop chunk
  | _ => none

def observe : AnthropicStreamValidator :=
  if !validator.valid then validator
  else (validator.accept chunk).getD { validator with valid := false }

def isValidFor (kind : AnthropicResponseKind) : Bool :=
  if !validator.valid || validator.blocks.isEmpty || !validator.messageStarted ||
      !validator.messageDeltaSeen || !validator.messageStopped || validator.activeBlock.isSome ||
      validator.blocks.any fun block => !block.2.stopped then
    false
  else
    let compaction := validator.blocks.filter fun block => block.2.kind = some "compaction"
    match kind with
    | .ordinary => compaction.isEmpty
    | .thresholdCompaction =>
      validator.protocol = .thresholdV1 && validator.blocks.length = 1 &&
        match compaction with
        | [block] => block.2.compactionDeltaCount = 1
        | _ => false
    | .onDemandCompaction =>
      validator.protocol = .onDemandV1 && validator.blocks.length = 1 &&
        match compaction with
        | [block] => block.2.compactionDeltaCount = 0
        | _ => false

end AnthropicStreamValidator

end NemoRelay.ResponseCache
