import NemoRelay.Optimization.Accounting

/-!
# Estimated costs

The cost of a usage under a pricing entry. A schedule of rates selects its tier by the number of
input tokens, which is counted apart from the tokens that are billed.
-/

namespace NemoRelay

open CheckedSum

/-- The arithmetic of prices, which is that of floats. -/
class PriceAmounts extends Amounts where
  costComponent : Nat → F64 → F64
  roundCostAmount : F64 → F64

inductive PricingUnit
  | perToken
  | perRequest
  | perSecond
  | gpuHour
  deriving DecidableEq

/-- Whether the tokens read from the cache are included in the prompt tokens. -/
inductive CacheReadAccounting
  | includedInPromptTokens
  | separate

structure CacheWriteRate where
  duration : Option Nat
  perMillion : F64

structure TokenPricingRates where
  inputPerMillion : F64
  outputPerMillion : F64
  cacheReadPerMillion : Option F64
  cacheWriteRates : List CacheWriteRate

structure TokenRateTier where
  minPromptTokens : Option Nat
  maxPromptTokens : Option Nat
  rates : TokenPricingRates

/-- The selected rates apply to the full request, the only `RateScheduleApplication`. -/
inductive TokenRateSchedule
  | promptTokenThreshold (tiers : List TokenRateTier)

structure ModelPricing where
  provider : String
  modelId : String
  currency : String
  unit : PricingUnit
  rates : Option TokenPricingRates
  rateSchedule : Option TokenRateSchedule
  readAccounting : CacheReadAccounting
  pricingAsOf : String
  pricingSource : String

def TokenRateTier.matchesPromptTokens (tier : TokenRateTier) (promptTokens : Nat) : Bool :=
  tier.minPromptTokens.all (· ≤ promptTokens) && tier.maxPromptTokens.all (promptTokens ≤ ·)

def TokenRateSchedule.ratesForPromptTokens (promptTokens : Option Nat) :
    TokenRateSchedule → Option TokenPricingRates
  | .promptTokenThreshold tiers => do
    let promptTokens ← promptTokens
    (tiers.find? (·.matchesPromptTokens promptTokens)).map (·.rates)

namespace ModelPricing

variable (pricing : ModelPricing)

def rateTierInputTokens (usage : Usage) : Option Nat :=
  match usage.uncachedInputTokens with
  | some uncached => usage.inputTokensWithCache uncached
  | none => do
    let cacheOutsidePrompt := match pricing.readAccounting with
      | .includedInPromptTokens => [none, usage.cacheWriteTotal]
      | .separate => [usage.cacheReadTokens, usage.cacheWriteTotal]
    cacheOutsidePrompt.reduceOption.foldlM (add u64Bound) (← usage.promptTokens)

def billablePromptTokens (usage : Usage) : Option Nat :=
  match usage.uncachedInputTokens with
  | some uncached => usage.inputSplit.map fun _ => uncached
  | none =>
    let promptTokens := usage.promptTokens.getD 0
    match pricing.readAccounting with
    | .includedInPromptTokens =>
      let read := usage.cacheReadTokens.getD 0
      if read ≤ promptTokens then some (promptTokens - read) else none
    | .separate => some promptTokens

def ratesFor (rateTierUsage : Usage) : Option TokenPricingRates :=
  match pricing.rateSchedule with
  | some schedule => schedule.ratesForPromptTokens (pricing.rateTierInputTokens rateTierUsage)
  | none => pricing.rates

end ModelPricing

section Costs

variable [PriceAmounts]

open PriceAmounts

def costComponentIfNonzero (tokens : Nat) (pricePerMillion : F64) : Option F64 :=
  if 0 < tokens then some (roundCostAmount (costComponent tokens pricePerMillion)) else none

/-- `none` if a write has no rate. -/
def cacheWriteCost (rates : TokenPricingRates) (writes : Option (List CacheWriteTokenCounts)) :
    Option (Option F64) :=
  ((writes.getD []).filter (0 < ·.count)).foldlM (fun total write => do
    let rateFor duration := rates.cacheWriteRates.find? (·.duration = duration)
    let rate ← (rateFor write.duration).or (rateFor none)
    match costComponentIfNonzero write.count rate.perMillion with
    | some cost => some (some (Amounts.add (total.getD .zero) cost))
    | none => some total) none

namespace ModelPricing

def estimateCostInTier (pricing : ModelPricing) (usage rateTierUsage : Usage) :
    Option CostEstimate :=
  if pricing.unit ≠ .perToken then none
  else do
    let completionTokens := usage.completionTokens.getD 0
    let cacheReadTokens := usage.cacheReadTokens.getD 0
    let rates ← pricing.ratesFor rateTierUsage
    let billablePromptTokens ← pricing.billablePromptTokens usage
    if billablePromptTokens = 0 ∧ completionTokens = 0 ∧ cacheReadTokens = 0 ∧
        usage.cacheWriteTotal.getD 0 = 0 then none
    else
      let inputCost := costComponentIfNonzero billablePromptTokens rates.inputPerMillion
      let outputCost := costComponentIfNonzero completionTokens rates.outputPerMillion
      let cacheReadCost := rates.cacheReadPerMillion.bind (costComponentIfNonzero cacheReadTokens)
      let cacheWrite := cacheWriteCost rates usage.cacheWriteTokens
      let hasUnpricedNonzeroUsage :=
        (0 < cacheReadTokens && rates.cacheReadPerMillion.isNone) || cacheWrite.isNone
      let componentSum := [inputCost, outputCost, cacheReadCost, cacheWrite.join].reduceOption.foldl
        Amounts.add .zero
      some ⟨if hasUnpricedNonzeroUsage then none else some (roundCostAmount componentSum),
        pricing.currency, inputCost, outputCost, cacheReadCost, cacheWrite.join, .modelPricing,
        some pricing.provider, some pricing.modelId, some pricing.pricingAsOf,
        some pricing.pricingSource⟩

def estimateCost (pricing : ModelPricing) (usage : Usage) : Option CostEstimate :=
  pricing.estimateCostInTier usage usage

end ModelPricing

/-! ### The tokens of the tier are those that are billed -/

variable {pricing : ModelPricing} {usage : Usage} {billed n : Nat} {rates : TokenPricingRates}
  {estimate : CostEstimate}

omit [PriceAmounts] in
theorem rateTierInputTokens_eq_billed (hbilled : pricing.billablePromptTokens usage = some billed)
    (htier : pricing.rateTierInputTokens usage = some n) :
    n = billed + usage.cacheReadTokens.getD 0 + usage.cacheWriteTotal.getD 0 := by
  unfold ModelPricing.billablePromptTokens at hbilled
  unfold ModelPricing.rateTierInputTokens at htier
  cases huncached : usage.uncachedInputTokens with
  | some uncached =>
    rw [huncached] at hbilled htier
    obtain ⟨_, -, rfl⟩ := Option.map_eq_some_iff.mp hbilled
    exact inputTokensWithCache_eq_some htier
  | none =>
    rw [huncached] at hbilled htier
    obtain ⟨prompt, hprompt, htier⟩ := Option.bind_eq_some_iff.mp htier
    have hsum := eq_of_foldlM_add htier
    -- the reads are either taken from the prompt or added to it
    cases haccounting : pricing.readAccounting <;>
      simp only [haccounting, hprompt, Option.getD_some] at hbilled hsum
    · split at hbilled
      · cases hbilled
        simp [presentSum_cons] at hsum
        omega
      · cases hbilled
    · cases hbilled
      simp [presentSum_cons] at hsum
      omega

/-- The input tokens of a usage: those that are billed, those read and those written. -/
def Usage.inputTotal (usage : Usage) (billed : Nat) : Nat :=
  billed + usage.cacheReadTokens.getD 0 + ((usage.cacheWriteTokens.getD []).map (·.count)).sum

/-- An estimate prices each kind of input tokens once, at the rates for all of them. -/
structure BilledOnce (pricing : ModelPricing) (usage : Usage) (estimate : CostEstimate)
    (billed : Nat) (rates : TokenPricingRates) : Prop where
  prompt : pricing.billablePromptTokens usage = some billed
  input : estimate.input = costComponentIfNonzero billed rates.inputPerMillion
  cacheRead : estimate.cacheRead =
    rates.cacheReadPerMillion.bind (costComponentIfNonzero (usage.cacheReadTokens.getD 0))
  cacheWrite : estimate.cacheWrite = (cacheWriteCost rates usage.cacheWriteTokens).join
  priced : estimate.total.isSome → (cacheWriteCost rates usage.cacheWriteTokens).isSome ∧
    (0 < usage.cacheReadTokens.getD 0 → rates.cacheReadPerMillion.isSome)
  tier : ∀ n, pricing.rateTierInputTokens usage = some n → n = usage.inputTotal billed
  rates : match pricing.rateSchedule with
    | some schedule => schedule.ratesForPromptTokens (some (usage.inputTotal billed)) = some rates
    | none => pricing.rates = some rates

/-- Where the tier is chosen from the usage that is billed, the tokens that choose it are those that
are billed: each of them once, at the rates for all of them. -/
theorem exists_billedOnce (h : pricing.estimateCost usage = some estimate)
    (hwrites : ((usage.cacheWriteTokens.getD []).map (·.count)).sum < u64Bound) :
    ∃ billed rates, BilledOnce pricing usage estimate billed rates := by
  unfold ModelPricing.estimateCost ModelPricing.estimateCostInTier at h
  split at h
  · cases h
  obtain ⟨rates, hrates, h⟩ := Option.bind_eq_some_iff.mp h
  obtain ⟨billed, hbilled, h⟩ := Option.bind_eq_some_iff.mp h
  have htier : ∀ n, pricing.rateTierInputTokens usage = some n → n = usage.inputTotal billed := by
    intro n hn
    have hwriteTotal : usage.cacheWriteTotal.getD 0 =
        ((usage.cacheWriteTokens.getD []).map (·.count)).sum := by
      unfold Usage.cacheWriteTotal
      cases hw : usage.cacheWriteTokens with
      | none => rfl
      | some writes =>
        rw [hw] at hwrites
        exact saturatingSum_eq_sum (Nat.le_pred_of_lt hwrites)
    rw [rateTierInputTokens_eq_billed hbilled hn, hwriteTotal, Usage.inputTotal]
  split at h
  · cases h
  cases h
  refine ⟨billed, rates, hbilled, rfl, rfl, rfl, ?_, htier, ?_⟩
  · intro htotal
    split at htotal
    · cases htotal
    · next hpriced =>
      simp only [Bool.or_eq_true, Bool.and_eq_true, decide_eq_true_eq, not_or, not_and,
        Bool.not_eq_true, Option.isNone_eq_false_iff] at hpriced
      exact hpriced.symm
  · unfold ModelPricing.ratesFor at hrates
    cases hschedule : pricing.rateSchedule with
    | none => rwa [hschedule] at hrates
    | some schedule =>
      rw [hschedule] at hrates
      obtain ⟨n, hn, hfind⟩ := Option.bind_eq_some_iff.mp hrates
      rwa [htier n hn] at hfind

/-- Two tiers, the second from 200001 input tokens on. -/
def tieredPricing : ModelPricing :=
  let rates price : TokenPricingRates := ⟨price, price, some price, [⟨none, price⟩]⟩
  ⟨"threshold-ai", "threshold-model", "USD", .perToken, none,
    some (.promptTokenThreshold
      [⟨none, some 200000, rates (.ofNat 1)⟩, ⟨some 200001, none, rates (.ofNat 10)⟩]),
    .separate, "2026-06-05", "source"⟩

/-- Each component costs what its rate is. -/
@[reducible] def unitAmounts : PriceAmounts :=
  { add _ _ := .zero, sub _ _ := .zero, costComponent _ price := price, roundCostAmount := id }

end Costs

theorem exists_billedOnce_tieredPricing :
    letI := unitAmounts
    let usage : Usage := ⟨some 199990, some 5, none, some 8, some [⟨3, none⟩], none, none⟩
    ∃ estimate, tieredPricing.estimateCost usage = some estimate ∧
      ∃ billed rates, BilledOnce tieredPricing usage estimate billed rates := by
  let _ := unitAmounts
  exact ⟨_, rfl, exists_billedOnce rfl (by decide)⟩

/-- For a decoded Gemini response the tier is that of the reported prompt tokens, while the tokens
of its tools are billed as well. -/
theorem estimateCostInTier_reported_tier :
    letI := unitAmounts
    let usage prompt : Usage := ⟨some prompt, some 20, none, none, none, none, none⟩
    ∃ estimate, tieredPricing.estimateCostInTier (usage 200010) (usage 199990) = some estimate ∧
      ¬ ∃ billed rates, BilledOnce tieredPricing (usage 200010) estimate billed rates := by
  let _ := unitAmounts
  refine ⟨_, rfl, ?_⟩
  rintro ⟨billed, rates, h⟩
  cases h.prompt
  cases h.rates
  exact absurd h.input (by decide)

end NemoRelay
