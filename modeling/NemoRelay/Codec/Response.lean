import NemoRelay.Codec.Request

/-!
# Normalized LLM responses

The provider-independent form that the response codecs produce, and the JSON values its parts
serialize to.
-/

namespace NemoRelay

inductive FinishReason
  | complete
  | length
  | toolUse
  | contentFilter
  | unknown (reason : String)

instance : Serialize FinishReason where
  toValue
    | .complete => .str "complete"
    | .length => .str "length"
    | .toolUse => .str "tool_use"
    | .contentFilter => .str "content_filter"
    | .unknown reason => .obj [("unknown", .str reason)]

structure ResponseToolCall where
  id : String
  name : String
  arguments : Json

instance : Serialize ResponseToolCall where
  toValue call :=
    .ofFields [("id", some (.str call.id)), ("name", some (.str call.name)),
      ("arguments", some call.arguments)] []

/-! ### Usage and cost -/

structure CacheWriteTokenCounts where
  count : Nat
  duration : Option Nat

inductive CostSource
  | modelPricing
  | providerReported
  deriving DecidableEq

structure CostEstimate where
  total : Option F64
  currency : String
  input : Option F64
  output : Option F64
  cacheRead : Option F64
  cacheWrite : Option F64
  source : CostSource
  pricingProvider : Option String
  pricingModel : Option String
  pricingAsOf : Option String
  pricingSource : Option String

structure Usage where
  promptTokens : Option Nat
  completionTokens : Option Nat
  totalTokens : Option Nat
  cacheReadTokens : Option Nat
  cacheWriteTokens : Option (List CacheWriteTokenCounts)
  uncachedInputTokens : Option Nat
  cost : Option CostEstimate

def countJson (count : Nat) : Json := .num (.posInt count)

def amountJson (amount : F64) : Json := .num (.float amount)

instance : Serialize CacheWriteTokenCounts where
  toValue counts :=
    .ofFields [("count", some (countJson counts.count)),
      ("duration", counts.duration.map countJson)] []

instance : Serialize CostSource where
  toValue
    | .modelPricing => .str "model_pricing"
    | .providerReported => .str "provider_reported"

instance : Serialize CostEstimate where
  toValue cost :=
    .ofFields [("total", cost.total.map amountJson), ("currency", some (.str cost.currency)),
      ("input", cost.input.map amountJson), ("output", cost.output.map amountJson),
      ("cache_read", cost.cacheRead.map amountJson),
      ("cache_write", cost.cacheWrite.map amountJson), ("source", some (toValue cost.source)),
      ("pricing_provider", cost.pricingProvider.map .str),
      ("pricing_model", cost.pricingModel.map .str), ("pricing_as_of", cost.pricingAsOf.map .str),
      ("pricing_source", cost.pricingSource.map .str)] []

instance : Serialize Usage where
  toValue usage :=
    .ofFields [("prompt_tokens", usage.promptTokens.map countJson),
      ("completion_tokens", usage.completionTokens.map countJson),
      ("total_tokens", usage.totalTokens.map countJson),
      ("cache_read_tokens", usage.cacheReadTokens.map countJson),
      ("cache_write_tokens", usage.cacheWriteTokens.map fun writes => .arr (writes.map toValue)),
      ("uncached_input_tokens", usage.uncachedInputTokens.map countJson),
      ("cost", usage.cost.map toValue)] []

/-! ### Optimizations -/

structure LlmOptimizationModel where
  model : String
  provider : Option String

structure LlmOptimizationTokens where
  promptTokens : Option Nat
  completionTokens : Option Nat
  cacheReadTokens : Option Nat
  cacheWriteTokens : Option Nat
  totalTokens : Option Nat

inductive LlmOptimizationSummaryStatus
  | complete
  | partly
  deriving DecidableEq

/-- `contributions` are kept as the values they are written as: nothing here looks into them. -/
structure LlmOptimizationSummary where
  schemaVersion : String
  calculationVersion : String
  status : LlmOptimizationSummaryStatus
  limitations : List String
  baselineModel : Option LlmOptimizationModel
  effectiveModel : Option LlmOptimizationModel
  effectiveUsage : Option Usage
  baselineUsage : Option Usage
  tokensSaved : LlmOptimizationTokens
  baselineCost : Option CostEstimate
  actualCost : Option CostEstimate
  estimatedCostSaved : Option F64
  currency : Option String
  contributions : List Json

instance : Serialize LlmOptimizationModel where
  toValue model :=
    .ofFields [("model", some (.str model.model)), ("provider", model.provider.map .str)] []

instance : Serialize LlmOptimizationTokens where
  toValue tokens :=
    .ofFields [("prompt_tokens", tokens.promptTokens.map countJson),
      ("completion_tokens", tokens.completionTokens.map countJson),
      ("cache_read_tokens", tokens.cacheReadTokens.map countJson),
      ("cache_write_tokens", tokens.cacheWriteTokens.map countJson),
      ("total_tokens", tokens.totalTokens.map countJson)] []

instance : Serialize LlmOptimizationSummaryStatus where
  toValue
    | .complete => .str "complete"
    | .partly => .str "partial"

/-- An empty list of limitations is not written. -/
instance : Serialize LlmOptimizationSummary where
  toValue summary :=
    .ofFields [("schema_version", some (.str summary.schemaVersion)),
      ("calculation_version", some (.str summary.calculationVersion)),
      ("status", some (toValue summary.status)),
      ("limitations",
        if summary.limitations = [] then none else some (Json.strings summary.limitations)),
      ("baseline_model", summary.baselineModel.map toValue),
      ("effective_model", summary.effectiveModel.map toValue),
      ("effective_usage", summary.effectiveUsage.map toValue),
      ("baseline_usage", summary.baselineUsage.map toValue),
      ("tokens_saved", some (toValue summary.tokensSaved)),
      ("baseline_cost", summary.baselineCost.map toValue),
      ("actual_cost", summary.actualCost.map toValue),
      ("estimated_cost_saved", summary.estimatedCostSaved.map amountJson),
      ("currency", summary.currency.map .str), ("contributions", some (.arr summary.contributions))]
      []

/-! ### Fields of one provider -/

structure OpenAIChatResponseFields where
  logprobs : Option Json
  systemFingerprint : Option String
  serviceTier : Option String

structure OpenAIResponsesResponseFields where
  outputItems : Option (List Json)
  status : Option String
  incompleteDetails : Option Json
  previousResponseId : Option String
  store : Option Bool
  serviceTier : Option String
  truncation : Option Json
  reasoning : Option Json
  inputTokensDetails : Option Json
  outputTokensDetails : Option Json

structure AnthropicMessagesResponseFields where
  objectType : Option String
  role : Option String
  stopReason : Option String
  stopSequence : Option String
  serviceTier : Option String
  container : Option Json
  contentBlocks : Option (List Json)

structure GeminiResponseFields where
  thoughtsTokens : Option Nat
  toolUsePromptTokens : Option Nat
  safetyRatings : Option Json
  groundingMetadata : Option Json
  citationMetadata : Option Json
  extra : Object

inductive ApiSpecificResponse
  | openAIChat (fields : OpenAIChatResponseFields)
  | openAIResponses (fields : OpenAIResponsesResponseFields)
  | anthropicMessages (fields : AnthropicMessagesResponseFields)
  | ociGenAI (apiFormat modelVersion : Option String)
  | geminiGenerateContent (fields : GeminiResponseFields)
  | custom (apiName : String) (data : Json)

instance : Serialize OpenAIChatResponseFields where
  toValue fields :=
    .ofFields [("api", some (.str "openai_chat")), ("logprobs", fields.logprobs),
      ("system_fingerprint", fields.systemFingerprint.map .str),
      ("service_tier", fields.serviceTier.map .str)] []

instance : Serialize OpenAIResponsesResponseFields where
  toValue fields :=
    .ofFields [("api", some (.str "openai_responses")),
      ("output_items", fields.outputItems.map .arr),
      ("status", fields.status.map .str), ("incomplete_details", fields.incompleteDetails),
      ("previous_response_id", fields.previousResponseId.map .str),
      ("store", fields.store.map .bool), ("service_tier", fields.serviceTier.map .str),
      ("truncation", fields.truncation), ("reasoning", fields.reasoning),
      ("input_tokens_details", fields.inputTokensDetails),
      ("output_tokens_details", fields.outputTokensDetails)] []

instance : Serialize AnthropicMessagesResponseFields where
  toValue fields :=
    .ofFields [("api", some (.str "anthropic_messages")),
      ("object_type", fields.objectType.map .str), ("role", fields.role.map .str),
      ("stop_reason", fields.stopReason.map .str), ("stop_sequence", fields.stopSequence.map .str),
      ("service_tier", fields.serviceTier.map .str), ("container", fields.container),
      ("content_blocks", fields.contentBlocks.map .arr)] []

/-- A further field that is called `api` would hide the tag, and is not written. -/
instance : Serialize GeminiResponseFields where
  toValue fields :=
    .ofFields [("api", some (.str "gemini_generate_content")),
      ("thoughts_tokens", fields.thoughtsTokens.map countJson),
      ("tool_use_prompt_tokens", fields.toolUsePromptTokens.map countJson),
      ("safety_ratings", fields.safetyRatings), ("grounding_metadata", fields.groundingMetadata),
      ("citation_metadata", fields.citationMetadata)]
      (fields.extra.filter fun entry => entry.1 ≠ "api")

instance : Serialize ApiSpecificResponse where
  toValue
    | .openAIChat fields => toValue fields
    | .openAIResponses fields => toValue fields
    | .anthropicMessages fields => toValue fields
    | .ociGenAI apiFormat modelVersion =>
      .ofFields [("api", some (.str "oci_genai")), ("api_format", apiFormat.map .str),
        ("model_version", modelVersion.map .str)] []
    | .geminiGenerateContent fields => toValue fields
    | .custom apiName data =>
      .ofFields [("api", some (.str "custom")), ("api_name", some (.str apiName)),
        ("data", some data)] []

structure AnnotatedLlmResponse where
  id : Option String
  model : Option String
  message : Option MessageContent
  toolCalls : Option (List ResponseToolCall)
  finishReason : Option FinishReason
  usage : Option Usage
  optimizationSummary : Option LlmOptimizationSummary
  apiSpecific : Option ApiSpecificResponse
  extra : Object

def AnnotatedLlmResponse.fields (response : AnnotatedLlmResponse) : List (String × Option Json) :=
  [("id", response.id.map .str), ("model", response.model.map .str),
    ("message", response.message.map toValue),
    ("tool_calls", response.toolCalls.map fun calls => .arr (calls.map toValue)),
    ("finish_reason", response.finishReason.map toValue), ("usage", response.usage.map toValue),
    ("optimization_summary", response.optimizationSummary.map toValue),
    ("api_specific", response.apiSpecific.map toValue)]

instance : Serialize AnnotatedLlmResponse where
  toValue response := .ofFields response.fields response.extra

end NemoRelay
