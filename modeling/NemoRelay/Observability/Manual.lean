import NemoRelay.Observability.Event

/-!
# Usage of responses without a provider codec

Token counts and costs are read from the `usage` and `token_usage` objects of a raw response, under
any of the names they are known by. They complete the usage that a normalized response reports.
-/

namespace NemoRelay.Observability

open SortedMap Json

/-! ### Token counts -/

def firstU64 (usage : Object) (keys : List String) : Option Nat :=
  keys.findSome? fun key => (get usage key).bind asU64

def nestedU64 (usage : Object) (parentKey childKey : String) : Option Nat :=
  (((get usage parentKey).bind asObject).bind (get · childKey)).bind asU64

def firstU64FromManualUsage (usage tokenUsage : Option Object) (keys : List String) : Option Nat :=
  (usage.bind (firstU64 · keys)).or (tokenUsage.bind (firstU64 · keys))

def firstNestedU64FromManualUsage (usage tokenUsage : Option Object)
    (parentKey childKey : String) : Option Nat :=
  (usage.bind (nestedU64 · parentKey childKey)).or
    (tokenUsage.bind (nestedU64 · parentKey childKey))

/-- A reported total that its parts contradict is dropped. -/
def normalizeTotalTokens (totalTokens promptTokens completionTokens : Option Nat) : Option Nat :=
  totalTokens.filter fun total =>
    let minimum := min (promptTokens.getD 0 + completionTokens.getD 0) (u64Bound - 1)
    minimum = 0 || minimum ≤ total

def oneHourSeconds : Nat := 3600

/-- `CacheWriteTokenCounts::from_total_and_one_hour`. -/
def CacheWriteTokenCounts.fromTotalAndOneHour (total oneHour restDuration : Option Nat) :
    Option (List CacheWriteTokenCounts) :=
  total.map fun total =>
    let oneHour := (oneHour.map (min · total)).filter (0 < ·)
    let rest := total - oneHour.getD 0
    (if 0 < rest || oneHour.isNone then [⟨rest, restDuration⟩] else []) ++
      (oneHour.map fun count => ⟨count, some oneHourSeconds⟩).toList

def cacheWriteOf (count duration : Option Json) : Option CacheWriteTokenCounts := do
  let count ← count.bind asU64
  match duration with
  | none | some .null => return ⟨count, none⟩
  | some duration => return ⟨count, some (← duration.asU64)⟩

/-- `serde_json::from_value` into one entry of a list of cache writes, which may also be written as
an array of its fields. -/
def readCacheWrite : Json → Option CacheWriteTokenCounts
  | .obj entries => cacheWriteOf (get entries "count") (get entries "duration")
  | .arr [count] => cacheWriteOf (some count) none
  | .arr [count, duration] => cacheWriteOf (some count) (some duration)
  | _ => none

def cacheWriteList (usage : Option Object) : Option (List CacheWriteTokenCounts) :=
  ((usage.bind (get · "cache_write_tokens")).bind asArray).bind (·.mapM readCacheWrite)

def cacheWriteAliases : List String :=
  ["cache_write_tokens", "cache_creation_input_tokens", "cacheWriteTokens",
    "cacheCreationInputTokens", "cacheWrite"]

def cacheWriteOneHourAliases : List String :=
  ["cache_creation_1h_input_tokens", "cacheCreation1hInputTokens"]

def cacheReadTokens (usage tokenUsage : Option Object) : Option Nat :=
  (firstU64FromManualUsage usage tokenUsage ["cached_tokens", "cachedTokens"]).or <|
    (firstNestedU64FromManualUsage usage tokenUsage "prompt_tokens_details" "cached_tokens").or <|
      (firstNestedU64FromManualUsage usage tokenUsage "input_tokens_details" "cached_tokens").or <|
        firstU64FromManualUsage usage tokenUsage
          ["cache_read_tokens", "cache_read_input_tokens", "cacheReadTokens",
            "cacheReadInputTokens", "cacheRead"]

/-- Everything in `usage` comes before anything in `token_usage`. -/
def cacheWrites (usage tokenUsage : Option Object) : Option (List CacheWriteTokenCounts) :=
  let oneHourIn (value : Object) : Option Nat :=
    (firstU64 value cacheWriteOneHourAliases).or
      (nestedU64 value "cache_creation" "ephemeral_1h_input_tokens")
  let scalarWrites :=
    CacheWriteTokenCounts.fromTotalAndOneHour
      (firstU64FromManualUsage usage tokenUsage cacheWriteAliases)
      ((usage.bind oneHourIn).or (tokenUsage.bind oneHourIn)) none
  (cacheWriteList usage).or <|
    ((usage.bind (firstU64 · cacheWriteAliases)).bind fun _ => scalarWrites).or <|
      (cacheWriteList tokenUsage).or scalarWrites

def usageFromManualLlmOutput (output : Option Json) : Option Usage := do
  let object ← output.bind asObject
  let usage := (get object "usage").bind asObject
  let tokenUsage := (get object "token_usage").bind asObject
  if usage.isNone && tokenUsage.isNone then none
  else
    let first := firstU64FromManualUsage usage tokenUsage
    let promptTokens := first ["prompt_tokens", "input_tokens", "inputTokens", "input"]
    let completionTokens :=
      first ["completion_tokens", "output_tokens", "completionTokens", "outputTokens", "output"]
    let reportedTotalTokens := first ["total_tokens", "totalTokens", "total"]
    let cacheReadTokens := cacheReadTokens usage tokenUsage
    let cacheWrites := cacheWrites usage tokenUsage
    let uncachedInputTokens := first ["uncached_input_tokens", "uncachedInputTokens"]
    if promptTokens.isNone && completionTokens.isNone && reportedTotalTokens.isNone &&
        cacheReadTokens.isNone && cacheWrites.isNone && uncachedInputTokens.isNone then none
    else
      some
        { promptTokens
          completionTokens
          totalTokens := normalizeTotalTokens reportedTotalTokens promptTokens completionTokens
          cacheReadTokens
          cacheWriteTokens := cacheWrites
          uncachedInputTokens
          cost := none }

/-! ### Costs -/

section Amounts

variable [Amounts]

/-- `ManualCostPolicy::AtifUsdOnly`: a cost without a currency counts if its origin is known. -/
def acceptsCurrency (currency : Option String) (cost : Object) : Bool :=
  match currency with
  | some currency => eqIgnoreAsciiCase currency "USD"
  | none =>
    let source := (get cost "source").bind asStr
    source = some "provider_reported" || source = some "model_pricing" ||
      ((get cost "total").bind asF64).isSome

def costFromManualUsage (usage : Object) : Option F64 :=
  match (get usage "cost_usd").bind asF64 with
  | some total => some total
  | none => do
    let cost ← (get usage "cost").bind asObject
    if acceptsCurrency ((get cost "currency").bind asStr) cost then
      let components := ["input", "output", "cache_read", "cache_write"].filterMap fun field =>
        (get cost field).bind asF64
      ((get cost "total").bind asF64).or
        (if components.isEmpty then none else some (components.foldl Amounts.add F64.zero))
    else none

def costFromManualLlmOutput (output : Json) : Option F64 := do
  let object ← output.asObject
  let usage := (get object "usage").bind asObject
  let tokenUsage := (get object "token_usage").bind asObject
  (usage.bind costFromManualUsage).or (tokenUsage.bind costFromManualUsage)

/-- `CostEstimate::total_or_component_sum_for_currency`. -/
def totalOrComponentSumForCurrency (cost : CostEstimate) (currency : String) : Option F64 :=
  if eqIgnoreAsciiCase cost.currency currency then cost.totalOrComponentSum else none

end Amounts

/-- `CostEstimate::total_for_currency`. -/
def totalForCurrency (cost : CostEstimate) (currency : String) : Option F64 :=
  if eqIgnoreAsciiCase cost.currency currency then cost.total else none

/-- The model that the response names comes first; a requested model of the same name is not tried
again. -/
def estimateCostForResponseOrModel (pricing : CostEstimator)
    (provider requestedModel responseModel : Option String) (usage : Usage) : Option CostEstimate :=
  (responseModel.bind fun model => pricing provider model usage).or do
    let requested ← requestedModel
    if responseModel = some requested then none else pricing provider requested usage

/-! ### Merged usage -/

/-- The tokens that were written without a duration. -/
def writesWithoutDuration (usage : Usage) : Nat :=
  CheckedSum.saturatingSum (u64Bound - 1)
    (((usage.cacheWriteTokens.getD []).filter (·.duration.isNone)).map (·.count))

def mergedCacheWrites (primary secondary : Usage) : Option (List CacheWriteTokenCounts) :=
  if primary.cacheWriteTotal = secondary.cacheWriteTotal ∧
      writesWithoutDuration secondary < writesWithoutDuration primary then
    secondary.cacheWriteTokens
  else primary.cacheWriteTokens.or secondary.cacheWriteTokens

/-- A usage that splits its input is taken as a whole. -/
def mergeUsage (primary secondary : Option Usage) : Option Usage :=
  match primary, secondary with
  | none, none => none
  | none, some usage | some usage, none => some usage
  | some primary, some secondary =>
    let merged : Usage :=
      { promptTokens := primary.promptTokens.or secondary.promptTokens
        completionTokens := primary.completionTokens.or secondary.completionTokens
        totalTokens := primary.totalTokens.or secondary.totalTokens
        cacheReadTokens := primary.cacheReadTokens.or secondary.cacheReadTokens
        cacheWriteTokens := mergedCacheWrites primary secondary
        uncachedInputTokens := none
        cost := primary.cost.or secondary.cost }
    match [primary, secondary].find? (·.uncachedInputTokens.isSome) with
    | some split =>
      some { merged with
        promptTokens := split.promptTokens
        cacheReadTokens := split.cacheReadTokens
        cacheWriteTokens := split.cacheWriteTokens
        uncachedInputTokens := split.uncachedInputTokens }
    | none => some merged

def usesSeparateAnthropicCacheTokens (provider : Option String)
    (response : Option AnnotatedLlmResponse) : Bool :=
  match response.bind (·.apiSpecific) with
  | some (.anthropicMessages _) => true
  | some (.openAIChat _) | some (.openAIResponses _) | some (.ociGenAI ..)
  | some (.geminiGenerateContent _) => false
  | some (.custom ..) | none =>
    provider.any fun provider =>
      "anthropic".toList.isPrefixOf (asciiLower provider) ||
        "claude".toList.isPrefixOf (asciiLower provider)

def inputTokensIncludingCache (provider : Option String) (response : Option AnnotatedLlmResponse)
    (usage : Usage) : Option Nat :=
  usage.promptTokens.bind fun promptTokens =>
    if usesSeparateAnthropicCacheTokens provider response then
      usage.inputTokensWithCache promptTokens
    else some promptTokens

end NemoRelay.Observability
