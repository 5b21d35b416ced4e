import Mathlib.Data.List.Destutter
import NemoRelay.Optimization.Totals

/-!
# Optimization summaries

At the end of a call its contributions become a summary: the tokens saved, the usage that the call
would have had without the optimizations, and the costs of both. Whatever stands in the way of an
exact account is noted as a limitation, and a summary is complete if there is none.

The estimation of costs and the arithmetic of amounts are arguments.
-/

namespace NemoRelay

open CheckedTokenTotals CheckedSum

/-- The arithmetic of amounts. -/
class Amounts where
  add : F64 → F64 → F64
  sub : F64 → F64 → F64

/-- `CostEstimator::estimate_cost_for_provider`: the cost of a usage of a model. -/
abbrev CostEstimator := Option String → String → Usage → Option CostEstimate

/-! ### Notes -/

/-- What a step of the derivation notes. -/
structure Notes where
  limitations : List String
  tokenCountOverflow : Bool
  baselineDerivationIncomplete : Bool

namespace Notes

def empty : Notes := ⟨[], false, false⟩

/-- The notes of one step after those of another. -/
def andThen (first second : Notes) : Notes :=
  ⟨first.limitations ++ second.limitations,
    first.tokenCountOverflow || second.tokenCountOverflow,
    first.baselineDerivationIncomplete || second.baselineDerivationIncomplete⟩

/-- Nothing that a summary reports. -/
def Clear (notes : Notes) : Prop := notes.limitations = [] ∧ notes.tokenCountOverflow = false

theorem clear_andThen {first second : Notes} :
    (first.andThen second).Clear ↔ first.Clear ∧ second.Clear := by
  simp only [Clear, andThen, List.append_eq_nil_iff, Bool.or_eq_false_iff]
  tauto

end Notes

/-! ### Contributions -/

structure ContributionAnalysis where
  limitations : List String
  tokenTotals : CheckedTokenTotals
  baselineModel : Option LlmOptimizationModel
  contributedEffectiveModel : Option LlmOptimizationModel
  useEffectiveAsBaseline : Bool

/-- A limitation that is noted under a condition. -/
def noteIf (condition : Bool) (limitation : String) : List String :=
  if condition then [limitation] else []

@[simp] theorem noteIf_eq_nil {condition : Bool} {limitation : String} :
    noteIf condition limitation = [] ↔ condition = false := by
  cases condition <;> simp [noteIf]

variable (contributions : List LlmOptimizationContribution)

def appliedRouting : List LlmOptimizationContribution :=
  (contributions.filter (·.applied)).filter (·.isRouting)

/-- More than one routing was applied. -/
def routingAmbiguous : Bool :=
  1 < (appliedRouting contributions).length

/-- The savings that are counted. -/
def countedSavings : List LlmOptimizationTokens :=
  ((contributions.filter (·.applied)).filter fun contribution =>
    !(routingAmbiguous contributions && contribution.isRouting)).filterMap (·.saved)

def analyzeContributions (finished : FinishedContributions) : ContributionAnalysis :=
  let routing := appliedRouting finished.contributions
  let ambiguous := routingAmbiguous finished.contributions
  let tokenTotals := ofList (countedSavings finished.contributions)
  let authoritativeTransition :=
    match routing with
    | [route] => route.modelTransition
    | _ => none
  { limitations := finished.limitations ++ noteIf ambiguous "multiple_routing_contributions" ++
      noteIf tokenTotals.missingTotal "missing_token_savings_total" ++
      noteIf tokenTotals.inconsistentTotal "inconsistent_token_savings_total"
    tokenTotals
    baselineModel := authoritativeTransition.bind (·.baseline)
    contributedEffectiveModel := authoritativeTransition.bind (·.effective)
    useEffectiveAsBaseline := routing.isEmpty || ambiguous }

def resolveEffectiveModel (contributed : Option LlmOptimizationModel)
    (response : Option AnnotatedLlmResponse) (requestedModel : Option String) :
    Option LlmOptimizationModel :=
  (contributed.or ((response.bind (·.model)).map fun model => ⟨model, none⟩)).or
    (requestedModel.map fun model => ⟨model, none⟩)

/-! ### How input tokens are counted -/

inductive InputSplit
  | separate
  | inclusive
  | either
  deriving DecidableEq

def InputSplit.ofApi : ApiSpecificResponse → Option InputSplit
  | .anthropicMessages _ => some .separate
  | .openAIChat _ | .openAIResponses _ | .ociGenAI .. | .geminiGenerateContent _ => some .inclusive
  | .custom .. => none

namespace Usage

/-- The tokens written to the cache, for all durations. -/
def cacheWriteTotal (usage : Usage) : Option Nat :=
  usage.cacheWriteTokens.map fun writes =>
    saturatingSum (u64Bound - 1) (writes.map (·.count))

def inputTokensWithCache (usage : Usage) (uncached : Nat) : Option Nat :=
  [usage.cacheReadTokens, usage.cacheWriteTotal].reduceOption.foldlM (add u64Bound) uncached

/-- Whether the prompt tokens include those of the cache; `none` if neither holds. -/
def inputSplit (usage : Usage) : Option InputSplit := do
  let uncached ← usage.uncachedInputTokens
  let withCache ← usage.inputTokensWithCache uncached
  match usage.promptTokens with
  | none => some .either
  | some prompt =>
    if prompt = uncached then if prompt = withCache then some .either else some .separate
    else if prompt = withCache then some .inclusive else none

end Usage

/-! ### The baseline -/

/-- The total is inferred if the usage does not report it. -/
def noteMissingCoreUsage (usage : Usage) : Usage × Notes :=
  let missing := noteIf usage.promptTokens.isNone "missing_effective_prompt_tokens" ++
    noteIf usage.completionTokens.isNone "missing_effective_completion_tokens"
  match usage.totalTokens, usage.promptTokens, usage.completionTokens with
  | some _, _, _ => (usage, ⟨missing, false, false⟩)
  | none, some prompt, some completion =>
    match add u64Bound prompt completion with
    | some total => ({ usage with totalTokens := some total }, ⟨missing, false, false⟩)
    | none => (usage, ⟨missing, true, false⟩)
  | none, _, _ => (usage, ⟨missing ++ ["missing_effective_total_tokens"], false, false⟩)

def checkedAddObservedTokens (target value : Option Nat) (valueOverflowed : Bool)
    (missingLimitation : String) : Option Nat × Notes :=
  if valueOverflowed then (none, ⟨[], true, true⟩)
  else
    match value with
    | none => (target, .empty)
    | some value =>
      match target with
      | none => (none, ⟨[missingLimitation], false, true⟩)
      | some observed =>
        match add u64Bound observed value with
        | some total => (some total, .empty)
        | none => (none, ⟨[], true, false⟩)

inductive BaselineInputError
  | overflow
  | incomplete (limitation : String)

def inconsistentSplit : BaselineInputError := .incomplete "inconsistent_baseline_input_split"

def orError {α : Type} (value : Option α) (error : BaselineInputError) :
    Except BaselineInputError α :=
  match value with
  | some value => .ok value
  | none => .error error

/-- Whether the saved tokens of the cache are part of the prompt tokens. -/
def splitIsInclusive (split : InputSplit) (apiSplit : Option InputSplit) :
    Except BaselineInputError Bool :=
  match split with
  | .inclusive => .ok true
  | .separate => .ok false
  | .either => do
    let apiSplit ← orError apiSplit (.incomplete "undetermined_baseline_input_split")
    return apiSplit = .inclusive

def baselineUncachedInputTokens (usage : Usage) (apiSplit : Option InputSplit)
    (saved : CheckedTokenTotals) : Except BaselineInputError (Option Nat) :=
  match usage.uncachedInputTokens with
  | none => .ok none
  | some uncached => do
    let split ← orError usage.inputSplit inconsistentSplit
    if saved.overflow.prompt || saved.overflow.cacheRead || saved.overflow.cacheWrite then
      .error .overflow
    let withSavedPrompt ←
      orError (add u64Bound uncached (saved.values.promptTokens.getD 0)) .overflow
    let savedCache ←
      orError ([saved.values.cacheReadTokens, saved.values.cacheWriteTokens].reduceOption.foldlM
        (add u64Bound) 0) .overflow
    if savedCache = 0 then return some withSavedPrompt
    if ← splitIsInclusive split apiSplit then
      if savedCache ≤ withSavedPrompt then return some (withSavedPrompt - savedCache)
      else .error inconsistentSplit
    else return some withSavedPrompt

/-- Saved writes carry no duration, so they are one more entry. -/
def baselineCacheWrites (writes : Option (List CacheWriteTokenCounts)) (total saved : Option Nat) :
    Option (List CacheWriteTokenCounts) :=
  match total, saved with
  | none, _ => none
  | some _, some saved => if 0 < saved then writes.map (· ++ [⟨saved, none⟩]) else writes
  | some _, none => writes

def deriveBaselineUsage (usage : Usage) (apiSplit : Option InputSplit)
    (tokensSaved : LlmOptimizationTokens) (tokenTotals : CheckedTokenTotals) : Usage × Notes :=
  let prompt := checkedAddObservedTokens usage.promptTokens tokensSaved.promptTokens
    tokenTotals.overflow.prompt "missing_effective_prompt_tokens"
  let completion := checkedAddObservedTokens usage.completionTokens tokensSaved.completionTokens
    tokenTotals.overflow.completion "missing_effective_completion_tokens"
  let cacheRead := checkedAddObservedTokens usage.cacheReadTokens tokensSaved.cacheReadTokens
    tokenTotals.overflow.cacheRead "missing_effective_cache_read_tokens"
  let total := checkedAddObservedTokens usage.totalTokens tokensSaved.totalTokens
    tokenTotals.overflow.total "missing_effective_total_tokens"
  let cacheWrite := checkedAddObservedTokens usage.cacheWriteTotal tokensSaved.cacheWriteTokens
    tokenTotals.overflow.cacheWrite "missing_effective_cache_write_tokens"
  let uncached : Option Nat × Notes :=
    match baselineUncachedInputTokens usage apiSplit tokenTotals with
    | .ok uncached => (uncached, .empty)
    | .error .overflow => (none, ⟨[], true, false⟩)
    | .error (.incomplete limitation) => (none, ⟨[limitation], false, true⟩)
  ({ promptTokens := prompt.1
     completionTokens := completion.1
     totalTokens := total.1
     cacheReadTokens := cacheRead.1
     cacheWriteTokens :=
       baselineCacheWrites usage.cacheWriteTokens cacheWrite.1 tokensSaved.cacheWriteTokens
     uncachedInputTokens := uncached.1
     cost := none },
    ((((prompt.2.andThen completion.2).andThen cacheRead.2).andThen total.2).andThen
      cacheWrite.2).andThen uncached.2)

structure UsageAnalysis where
  effective : Option Usage
  baseline : Option Usage
  notes : Notes

def deriveOptimizationUsage (response : Option AnnotatedLlmResponse)
    (tokensSaved : LlmOptimizationTokens) (tokenTotals : CheckedTokenTotals) : UsageAnalysis :=
  let initial : Notes :=
    ⟨[], tokenTotals.overflow.any, tokenTotals.missingTotal || tokenTotals.inconsistentTotal⟩
  match response.bind (·.usage) with
  | none => ⟨none, none, initial⟩
  | some usage =>
    let effective := noteMissingCoreUsage usage
    let apiSplit := (response.bind (·.apiSpecific)).bind InputSplit.ofApi
    let baseline := deriveBaselineUsage effective.1 apiSplit tokensSaved tokenTotals
    ⟨some effective.1, some baseline.1, (initial.andThen effective.2).andThen baseline.2⟩

/-! ### Costs -/

variable (pricing : CostEstimator)

def estimateWith (model : Option LlmOptimizationModel) (usage : Option Usage) :
    Option CostEstimate := do
  let model ← model
  pricing model.provider model.model (← usage)

variable (usage : Option Usage)

def completeCoreUsage : Bool :=
  usage.any fun usage => usage.promptTokens.isSome && usage.completionTokens.isSome

/-- The cost that the provider reports, or else an estimate. -/
def actualCost (effectiveModel : Option LlmOptimizationModel) : Option CostEstimate :=
  ((usage.bind (·.cost)).filter fun cost => cost.source = .providerReported).or
    (if completeCoreUsage usage then estimateWith pricing effectiveModel usage else none)

def baselineCost (usage baseline : Option Usage) (baselineModel : Option LlmOptimizationModel)
    (notes : Notes) : Option CostEstimate :=
  if !notes.tokenCountOverflow && !notes.baselineDerivationIncomplete &&
      completeCoreUsage usage then
    estimateWith pricing baselineModel baseline
  else none

def summaryLimitations (effectiveModel baselineModel : Option LlmOptimizationModel)
    (baselineCost actualCost : Option CostEstimate) (notes : Notes) : List String :=
  noteIf usage.isNone "missing_effective_usage" ++
    noteIf effectiveModel.isNone "missing_effective_model" ++
    noteIf baselineModel.isNone "missing_baseline_model" ++
    noteIf (baselineCost.isNone && baselineModel.isSome && !notes.tokenCountOverflow &&
      !notes.baselineDerivationIncomplete && completeCoreUsage usage) "missing_baseline_pricing" ++
    noteIf actualCost.isNone "missing_actual_cost"

def asciiLower (text : String) : List Char :=
  text.toList.map fun c => if 'A' ≤ c ∧ c ≤ 'Z' then Char.ofNat (c.toNat + 32) else c

def eqIgnoreAsciiCase (a b : String) : Bool := asciiLower a = asciiLower b

section Amounts

variable [Amounts]

def CostEstimate.totalOrComponentSum (cost : CostEstimate) : Option F64 :=
  cost.total.or
    (if cost.source = .providerReported then
      match [cost.input, cost.output, cost.cacheRead, cost.cacheWrite].reduceOption with
      | [] => none
      | components => some (components.foldl Amounts.add F64.zero)
    else none)

/-- The amount, the currency, and what stands in the way. -/
def calculateEstimatedCostSaved (baselineCost actualCost : Option CostEstimate) :
    Option F64 × Option String × List String :=
  let baselineTotal := baselineCost.bind (·.totalOrComponentSum)
  let actualTotal := actualCost.bind (·.totalOrComponentSum)
  let limitations :=
    noteIf (baselineCost.isSome && baselineTotal.isNone) "missing_baseline_cost_total" ++
      noteIf (actualCost.isSome && actualTotal.isNone) "missing_actual_cost_total"
  match baselineCost, actualCost with
  | some baseline, some actual =>
    if eqIgnoreAsciiCase baseline.currency actual.currency then
      match baselineTotal, actualTotal with
      | some baselineTotal, some actualTotal =>
        (some (Amounts.sub baselineTotal actualTotal), some baseline.currency, limitations)
      | _, _ => (none, none, limitations)
    else (none, none, limitations ++ ["cost_currency_mismatch"])
  | _, _ => (none, none, limitations)

/-! ### The summary -/

/-- What the response of the call is left with. -/
def AnnotatedLlmResponse.withSummary (response : AnnotatedLlmResponse) (effective : Option Usage)
    (actualCost : Option CostEstimate) (summary : LlmOptimizationSummary) : AnnotatedLlmResponse :=
  { response with
    usage := response.usage.map fun usage =>
      { usage with
        totalTokens := usage.totalTokens.or (effective.bind (·.totalTokens))
        cost := actualCost }
    optimizationSummary := some summary }

def sortedLimitations (limitations : List String) : List String :=
  (limitations.insertionSort (· ≤ ·)).destutter (· ≠ ·)

def summaryStatus (limitations : List String) : LlmOptimizationSummaryStatus :=
  if limitations.isEmpty then .complete else .partly

/-- Without a routing of its own, the baseline has the effective model. -/
def ContributionAnalysis.resolveBaselineModel (analysis : ContributionAnalysis)
    (effectiveModel : Option LlmOptimizationModel) : Option LlmOptimizationModel :=
  if analysis.useEffectiveAsBaseline then analysis.baselineModel.or effectiveModel
  else analysis.baselineModel

/-- The summary of a call, and its response afterwards. -/
def finalizeOptimizationSummary (finished : FinishedContributions)
    (response : Option AnnotatedLlmResponse) (requestedModel : Option String)
    (pricing : CostEstimator) : Option LlmOptimizationSummary × Option AnnotatedLlmResponse :=
  if finished.contributions.isEmpty && finished.limitations.isEmpty then (none, response)
  else
    let analysis := analyzeContributions finished
    let effectiveModel :=
      resolveEffectiveModel analysis.contributedEffectiveModel response requestedModel
    let baselineModel := analysis.resolveBaselineModel effectiveModel
    let tokensSaved := analysis.tokenTotals.values
    let usage := deriveOptimizationUsage response tokensSaved analysis.tokenTotals
    let actual := actualCost pricing usage.effective effectiveModel
    let effectiveUsage := usage.effective.map fun effective => { effective with cost := actual }
    let baseline :=
      baselineCost pricing usage.effective usage.baseline baselineModel usage.notes
    let saved := calculateEstimatedCostSaved baseline actual
    let limitations := sortedLimitations (analysis.limitations ++ usage.notes.limitations ++
      noteIf usage.notes.tokenCountOverflow "token_count_overflow" ++
      summaryLimitations effectiveUsage effectiveModel baselineModel baseline actual usage.notes ++
      saved.2.2)
    let summary : LlmOptimizationSummary :=
      { schemaVersion := "1"
        calculationVersion := "1"
        status := summaryStatus limitations
        limitations
        baselineModel
        effectiveModel
        effectiveUsage
        baselineUsage := usage.baseline
        tokensSaved
        baselineCost := baseline
        actualCost := actual
        estimatedCostSaved := saved.1
        currency := saved.2.1
        contributions := finished.contributions.map toValue }
    (some summary, response.map fun response => response.withSummary usage.effective actual summary)

end Amounts

/-! ### Complete summaries -/

variable {limitations : List String}

theorem sortedLimitations_eq_nil : sortedLimitations limitations = [] ↔ limitations = [] := by
  rw [sortedLimitations, List.destutter_eq_nil, ← List.length_eq_zero_iff,
    List.length_insertionSort, List.length_eq_zero_iff]

theorem summaryStatus_eq_complete :
    summaryStatus (sortedLimitations limitations) = .complete ↔ limitations = [] := by
  rw [← sortedLimitations_eq_nil, summaryStatus]
  cases sortedLimitations limitations <;> simp

/-- What a complete summary was made of. -/
structure CompleteFrom (finished : FinishedContributions) (response : Option AnnotatedLlmResponse)
    (summary : LlmOptimizationSummary) (usage : Usage) : Prop where
  usage_eq : response.bind (·.usage) = some usage
  unambiguous : routingAmbiguous finished.contributions = false
  noOverflow :
    (ofList (countedSavings finished.contributions)).overflow.any = false
  noMissing :
    (ofList (countedSavings finished.contributions)).missingTotal = false
  consistent :
    (ofList (countedSavings finished.contributions)).inconsistentTotal = false
  core : (noteMissingCoreUsage usage).2.Clear
  tokensSaved : summary.tokensSaved = (ofList (countedSavings finished.contributions)).values
  effective : ∃ cost, summary.effectiveUsage = some { (noteMissingCoreUsage usage).1 with cost }
  baseline : ∃ apiSplit, ∃ derived : Usage × Notes,
    derived = deriveBaselineUsage (noteMissingCoreUsage usage).1 apiSplit summary.tokensSaved
      (ofList (countedSavings finished.contributions)) ∧
    derived.2.Clear ∧ summary.baselineUsage = some derived.1

theorem completeFrom_of_finalize [Amounts] {finished : FinishedContributions}
    {response : Option AnnotatedLlmResponse} {requestedModel : Option String}
    {pricing : CostEstimator} {summary : LlmOptimizationSummary}
    (h : (finalizeOptimizationSummary finished response requestedModel pricing).1 = some summary)
    (hcomplete : summary.status = .complete) :
    ∃ usage, CompleteFrom finished response summary usage := by
  unfold finalizeOptimizationSummary at h
  split at h
  · cases h
  cases h
  rw [summaryStatus_eq_complete] at hcomplete
  simp only [List.append_eq_nil_iff, noteIf_eq_nil, summaryLimitations] at hcomplete
  obtain ⟨⟨⟨⟨hanalysis, hnotes⟩, hoverflow⟩, ⟨⟨⟨hsome, -⟩, -⟩, -⟩, -⟩, -⟩ := hcomplete
  simp only [analyzeContributions, List.append_eq_nil_iff, noteIf_eq_nil] at hanalysis
  obtain ⟨⟨⟨-, hambiguous⟩, hmissing⟩, hinconsistent⟩ := hanalysis
  have hclear := And.intro hnotes hoverflow
  cases husage : response.bind (·.usage) with
  | none => simp [deriveOptimizationUsage, husage] at hsome
  | some usage =>
    rw [deriveOptimizationUsage, husage] at hclear
    obtain ⟨hfirst, hbaseline⟩ := Notes.clear_andThen.mp hclear
    obtain ⟨hinitial, hcore⟩ := Notes.clear_andThen.mp hfirst
    refine ⟨usage, husage, hambiguous, hinitial.2, hmissing, hinconsistent, hcore, rfl, ?_, ?_⟩
    · exact ⟨_, by rw [deriveOptimizationUsage, husage]; rfl⟩
    · exact ⟨_, _, rfl, hbaseline, by rw [deriveOptimizationUsage, husage]; rfl⟩

end NemoRelay
