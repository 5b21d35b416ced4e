import NemoRelay.Optimization.Summary

/-!
# The account of a complete summary

In a complete summary the saved tokens are exact sums, and the baseline is the effective usage with
the saved tokens added. If the usage tells how its input tokens are counted, the baseline is counted
the same way.

The total is accounted by itself: a contribution may report a total without the counts it is made
of, and then the baseline has a total that is not the sum of its counts.
-/

namespace NemoRelay

/-! ### Adding to what was observed -/

/-- A count of the baseline is the observed one with the saved one added, in 64 bits. -/
def AddsUp (effective saved baseline : Option Nat) : Prop :=
  match saved with
  | none => baseline = effective
  | some saved => ∃ observed, effective = some observed ∧ baseline = some (observed + saved) ∧
      observed + saved < u64Bound

variable {effective saved baseline : Option Nat}

theorem AddsUp.eq_some (h : AddsUp effective saved baseline)
    {observed : Nat} (hobserved : effective = some observed) :
    baseline = some (observed + saved.getD 0) := by
  cases saved with
  | none => exact Eq.trans h hobserved
  | some saved =>
    obtain ⟨_, heffective, hbaseline, -⟩ := h
    cases hobserved.symm.trans heffective
    exact hbaseline

theorem AddsUp.getD (h : AddsUp effective saved baseline) :
    baseline.getD 0 = effective.getD 0 + saved.getD 0 := by
  cases saved with
  | none => exact congrArg (Option.getD · 0) h
  | some saved =>
    obtain ⟨observed, rfl, rfl, -⟩ := h
    rfl

open CheckedSum

theorem addsUp_of_checkedAddObservedTokens {target value : Option Nat} {valueOverflowed : Bool}
    {missingLimitation : String}
    (h : (checkedAddObservedTokens target value valueOverflowed missingLimitation).2.Clear) :
    AddsUp target value
      (checkedAddObservedTokens target value valueOverflowed missingLimitation).1 := by
  unfold checkedAddObservedTokens at h ⊢
  cases valueOverflowed with
  | true => exact absurd h.2 (by simp)
  | false =>
    cases value with
    | none => rfl
    | some value =>
      cases target with
      | none => exact absurd h.1 (by simp)
      | some observed =>
        dsimp only at h ⊢
        cases hadd : add u64Bound observed value with
        | none =>
          rw [hadd] at h
          exact absurd h.2 (by simp)
        | some total =>
          obtain ⟨rfl, hlt⟩ := add_eq_some.mp hadd
          exact ⟨observed, rfl, rfl, hlt⟩

/-- The writes of the baseline have the total that was checked. -/
theorem cacheWriteTotal_baselineCacheWrites {usage baseline : Usage} {total saved : Option Nat}
    (h : AddsUp usage.cacheWriteTotal saved total)
    (hbaseline : baseline.cacheWriteTokens =
      baselineCacheWrites usage.cacheWriteTokens total saved) :
    baseline.cacheWriteTotal = total := by
  rw [Usage.cacheWriteTotal] at h ⊢
  rw [hbaseline]
  cases hwrites : usage.cacheWriteTokens with
  | none =>
    rw [hwrites] at h
    cases saved with
    | none =>
      obtain rfl : total = none := h
      rfl
    | some saved =>
      obtain ⟨_, hnone, -⟩ := h
      cases hnone
  | some writes =>
    rw [hwrites] at h
    cases saved with
    | none =>
      obtain rfl : total = some _ := h
      rfl
    | some saved =>
      obtain ⟨observed, hobserved, rfl, hlt⟩ := h
      obtain rfl := Option.some.inj hobserved
      rw [baselineCacheWrites]
      split
      · -- the saved writes are one more entry, and the sum does not saturate
        rw [Option.map_some, Option.map_some, List.map_append, List.map_singleton,
          saturatingSum_concat]
        congr 1
        dsimp only at hlt ⊢
        omega
      · next hzero =>
        obtain rfl : saved = 0 := by omega
        rfl

/-! ### Counting input tokens -/

variable {usage : Usage} {uncached : Nat}

theorem inputTokensWithCache_eq_some {withCache : Nat}
    (h : usage.inputTokensWithCache uncached = some withCache) :
    withCache = uncached + usage.cacheReadTokens.getD 0 + usage.cacheWriteTotal.getD 0 := by
  simpa [Nat.add_assoc] using eq_of_foldlM_add h

/-- The prompt tokens include those of the cache. -/
def Usage.Inclusive (usage : Usage) : Prop :=
  ∃ prompt uncached, usage.promptTokens = some prompt ∧ usage.uncachedInputTokens = some uncached ∧
    prompt = uncached + usage.cacheReadTokens.getD 0 + usage.cacheWriteTotal.getD 0

/-- The prompt tokens are those that are not in the cache. -/
def Usage.Separate (usage : Usage) : Prop :=
  ∃ prompt, usage.promptTokens = some prompt ∧ usage.uncachedInputTokens = some prompt

/-- A convention holds of a usage; the third one is that both do. -/
def Usage.Follows (usage : Usage) : InputSplit → Prop
  | .inclusive => usage.Inclusive
  | .separate => usage.Separate
  | .either => usage.Inclusive ∧ usage.Separate

variable {split : InputSplit} {prompt : Nat}

theorem follows_of_inputSplit (h : usage.inputSplit = some split)
    (hprompt : usage.promptTokens = some prompt) : usage.Follows split := by
  simp only [Usage.inputSplit, bind, Option.bind_eq_some_iff, hprompt] at h
  obtain ⟨uncached, huncached, withCache, hcache, h⟩ := h
  have hwith := inputTokensWithCache_eq_some hcache
  split at h
  · next hseparate =>
    subst hseparate
    split at h
    · next hinclusive =>
      cases h
      exact ⟨⟨_, _, hprompt, huncached, hinclusive.trans hwith⟩, _, hprompt, huncached⟩
    · cases h
      exact ⟨_, hprompt, huncached⟩
  · split at h
    · next hinclusive =>
      cases h
      exact ⟨_, _, hprompt, huncached, hinclusive.trans hwith⟩
    · cases h

/-- The saved tokens of the cache. -/
def LlmOptimizationTokens.savedCache (tokens : LlmOptimizationTokens) : Nat :=
  tokens.cacheReadTokens.getD 0 + tokens.cacheWriteTokens.getD 0

theorem orError_eq_ok {α : Type} {value : Option α} {error : BaselineInputError} {result : α} :
    orError value error = .ok result ↔ value = some result := by
  cases value <;> simp [orError]

variable {apiSplit : Option InputSplit}

/-- What the uncached tokens of the baseline are derived from. -/
theorem baselineUncachedInputTokens_eq_ok {saved : CheckedTokenTotals} {baseline : Option Nat}
    (h : baselineUncachedInputTokens usage apiSplit saved = .ok baseline)
    (huncached : usage.uncachedInputTokens = some uncached) :
    ∃ split withSavedPrompt, usage.inputSplit = some split ∧
      withSavedPrompt = uncached + saved.values.promptTokens.getD 0 ∧
      (saved.values.savedCache = 0 ∧ baseline = some withSavedPrompt ∨
        splitIsInclusive split apiSplit = .ok false ∧ baseline = some withSavedPrompt ∨
        splitIsInclusive split apiSplit = .ok true ∧
          baseline = some (withSavedPrompt - saved.values.savedCache) ∧
          saved.values.savedCache ≤ withSavedPrompt) := by
  simp only [baselineUncachedInputTokens, huncached, bind_eq_ok, orError_eq_ok] at h
  obtain ⟨split, hsplit, h⟩ := h
  split at h
  · cases h
  simp only [bind_eq_ok, orError_eq_ok] at h
  obtain ⟨withSavedPrompt, hprompt, savedCache, hcache, h⟩ := h
  obtain ⟨rfl, -⟩ := add_eq_some.mp hprompt
  obtain rfl : savedCache = saved.values.savedCache := by
    simpa [LlmOptimizationTokens.savedCache] using eq_of_foldlM_add hcache
  refine ⟨split, _, hsplit, rfl, ?_⟩
  split at h
  · next hzero =>
    cases h
    exact .inl ⟨hzero, rfl⟩
  obtain ⟨inclusive, hinclusive, h⟩ := bind_eq_ok.mp h
  cases inclusive with
  | false =>
    cases h
    exact .inr (.inl ⟨hinclusive, rfl⟩)
  | true =>
    rw [if_pos rfl] at h
    split at h
    · next hle =>
      cases h
      exact .inr (.inr ⟨hinclusive, rfl, hle⟩)
    · cases h

/-! ### The baseline -/

/-- The baseline is the effective usage with the saved tokens added, counted the same way. -/
structure Accounted (effective baseline : Usage) (saved : LlmOptimizationTokens) : Prop where
  prompt : AddsUp effective.promptTokens saved.promptTokens baseline.promptTokens
  completion : AddsUp effective.completionTokens saved.completionTokens baseline.completionTokens
  cacheRead : AddsUp effective.cacheReadTokens saved.cacheReadTokens baseline.cacheReadTokens
  cacheWrite : AddsUp effective.cacheWriteTotal saved.cacheWriteTokens baseline.cacheWriteTotal
  total : AddsUp effective.totalTokens saved.totalTokens baseline.totalTokens
  counted : effective.uncachedInputTokens.isSome → baseline.Inclusive ∨ baseline.Separate
  inclusive : effective.inputSplit = some .inclusive → baseline.Inclusive
  separate : effective.inputSplit = some .separate → baseline.Separate

section Baseline

variable {totals : CheckedTokenTotals}

theorem inclusive_of_splitIsInclusive (h : splitIsInclusive split apiSplit = .ok true)
    (hfollows : usage.Follows split) : split ≠ .separate ∧ usage.Inclusive := by
  cases split with
  | separate => cases h
  | inclusive => exact ⟨by simp, hfollows⟩
  | either => exact ⟨by simp, hfollows.1⟩

theorem separate_of_splitIsInclusive (h : splitIsInclusive split apiSplit = .ok false)
    (hfollows : usage.Follows split) : split ≠ .inclusive ∧ usage.Separate := by
  cases split with
  | separate => exact ⟨by simp, hfollows⟩
  | inclusive => cases h
  | either => exact ⟨by simp, hfollows.2⟩

section Convention

variable {baseline : Usage}
  (hprompt : AddsUp usage.promptTokens totals.values.promptTokens baseline.promptTokens)
  (huncached : usage.uncachedInputTokens = some uncached)
include hprompt huncached

theorem separate_of_addsUp (h : usage.Separate)
    (hbaseline : baseline.uncachedInputTokens =
      some (uncached + totals.values.promptTokens.getD 0)) : baseline.Separate := by
  obtain ⟨prompt, hsome, huncached'⟩ := h
  cases huncached.symm.trans huncached'
  exact ⟨_, hprompt.eq_some hsome, hbaseline⟩

variable
  (hread : AddsUp usage.cacheReadTokens totals.values.cacheReadTokens baseline.cacheReadTokens)
  (hwrite : AddsUp usage.cacheWriteTotal totals.values.cacheWriteTokens baseline.cacheWriteTotal)
include hread hwrite

/-- Saved tokens of the cache that are part of the prompt are not uncached. -/
theorem inclusive_of_addsUp (h : usage.Inclusive) {baselineUncached : Nat}
    (hbaseline : baseline.uncachedInputTokens = some baselineUncached)
    (hsum : baselineUncached + totals.values.savedCache =
      uncached + totals.values.promptTokens.getD 0) : baseline.Inclusive := by
  obtain ⟨prompt, uncached', hsome, huncached', hsplit⟩ := h
  cases huncached.symm.trans huncached'
  refine ⟨_, _, hprompt.eq_some hsome, hbaseline, ?_⟩
  rw [hread.getD, hwrite.getD]
  unfold LlmOptimizationTokens.savedCache at hsum
  omega

/-- The baseline follows the convention of the usage. -/
theorem convention_of_uncached (hsome : usage.promptTokens = some prompt)
    (h : baselineUncachedInputTokens usage apiSplit totals = .ok baseline.uncachedInputTokens) :
    (baseline.Inclusive ∨ baseline.Separate) ∧
      (usage.inputSplit = some .inclusive → baseline.Inclusive) ∧
      (usage.inputSplit = some .separate → baseline.Separate) := by
  obtain ⟨split, withSavedPrompt, hsplit, rfl, hcases⟩ :=
    baselineUncachedInputTokens_eq_ok h huncached
  have hfollows := follows_of_inputSplit hsplit hsome
  rw [hsplit, Option.some.injEq, Option.some.injEq]
  have hseparate := separate_of_addsUp hprompt huncached
  have hinclusive := inclusive_of_addsUp hprompt huncached hread hwrite
  obtain ⟨hzero, hbaseline⟩ | ⟨hfalse, hbaseline⟩ | ⟨htrue, hbaseline, hle⟩ := hcases
  · replace hinclusive := fun h => hinclusive h hbaseline (by omega)
    replace hseparate := fun h => hseparate h hbaseline
    cases split with
    | inclusive => exact ⟨.inl (hinclusive hfollows), fun _ => hinclusive hfollows, nofun⟩
    | separate => exact ⟨.inr (hseparate hfollows), nofun, fun _ => hseparate hfollows⟩
    | either => exact ⟨.inl (hinclusive hfollows.1), nofun, nofun⟩
  · obtain ⟨hne, hsep⟩ := separate_of_splitIsInclusive hfalse hfollows
    exact ⟨.inr (hseparate hsep hbaseline), fun hsame => absurd hsame hne,
      fun _ => hseparate hsep hbaseline⟩
  · obtain ⟨hne, hincl⟩ := inclusive_of_splitIsInclusive htrue hfollows
    replace hinclusive := hinclusive hincl hbaseline (by omega)
    exact ⟨.inl hinclusive, fun _ => hinclusive, fun hsame => absurd hsame hne⟩

end Convention

/-- A baseline without notes is accounted. -/
theorem accounted_of_derive (hsome : usage.promptTokens = some prompt)
    (h : (deriveBaselineUsage usage apiSplit totals.values totals).2.Clear) :
    Accounted usage (deriveBaselineUsage usage apiSplit totals.values totals).1 totals.values := by
  simp only [deriveBaselineUsage, Notes.clear_andThen] at h
  obtain ⟨⟨⟨⟨⟨hprompt, hcompletion⟩, hread⟩, htotal⟩, hwrite⟩, huncached⟩ := h
  replace hprompt := addsUp_of_checkedAddObservedTokens hprompt
  replace hcompletion := addsUp_of_checkedAddObservedTokens hcompletion
  replace hread := addsUp_of_checkedAddObservedTokens hread
  replace htotal := addsUp_of_checkedAddObservedTokens htotal
  replace hwrite := addsUp_of_checkedAddObservedTokens hwrite
  have htotals : (deriveBaselineUsage usage apiSplit totals.values totals).1.cacheWriteTotal = _ :=
    cacheWriteTotal_baselineCacheWrites hwrite rfl
  rw [← htotals] at hwrite
  have hderived : baselineUncachedInputTokens usage apiSplit totals =
      .ok (deriveBaselineUsage usage apiSplit totals.values totals).1.uncachedInputTokens := by
    simp only [deriveBaselineUsage]
    cases hresult : baselineUncachedInputTokens usage apiSplit totals with
    | ok uncached => rfl
    | error error =>
      rw [hresult] at huncached
      cases error with
      | overflow => exact absurd huncached.2 (by simp)
      | incomplete limitation => exact absurd huncached.1 (by simp)
  cases huncached : usage.uncachedInputTokens with
  | none =>
    -- without uncached tokens no convention is known
    have hsplit : usage.inputSplit = none := by simp [Usage.inputSplit, huncached]
    exact ⟨hprompt, hcompletion, hread, hwrite, htotal, by simp [huncached], by simp [hsplit],
      by simp [hsplit]⟩
  | some uncached =>
    obtain ⟨hcounted, hinclusive, hseparate⟩ :=
      convention_of_uncached hprompt huncached hread hwrite hsome hderived
    exact ⟨hprompt, hcompletion, hread, hwrite, htotal, fun _ => hcounted, hinclusive, hseparate⟩

end Baseline

/-! ### Complete summaries -/

/-- The savings of the contributions that were applied. -/
def appliedSavings (contributions : List LlmOptimizationContribution) :
    List LlmOptimizationTokens :=
  (contributions.filter (·.applied)).filterMap (·.saved)

variable {contributions : List LlmOptimizationContribution}

theorem countedSavings_perm {contributions' : List LlmOptimizationContribution}
    (h : contributions.Perm contributions') :
    (countedSavings contributions).Perm (countedSavings contributions') := by
  have hambiguous : routingAmbiguous contributions = routingAmbiguous contributions' := by
    rw [routingAmbiguous, routingAmbiguous, appliedRouting, appliedRouting,
      ((h.filter _).filter _).length_eq]
  rw [countedSavings, hambiguous]
  exact ((h.filter _).filter _).filterMap _

theorem promptTokens_of_core (h : (noteMissingCoreUsage usage).2.Clear) :
    ∃ prompt, (noteMissingCoreUsage usage).1.promptTokens = some prompt := by
  cases hprompt : usage.promptTokens with
  | none =>
    -- without prompt tokens there is a limitation in every branch
    refine absurd h.1 ?_
    simp only [noteMissingCoreUsage, hprompt]
    cases usage.totalTokens <;> simp [noteIf]
  | some prompt =>
    refine ⟨prompt, ?_⟩
    unfold noteMissingCoreUsage
    split
    · exact hprompt
    · split <;> exact hprompt
    · exact hprompt

variable {response : Option AnnotatedLlmResponse} {finished : FinishedContributions}
  {summary : LlmOptimizationSummary}

theorem CompleteFrom.tokensSaved_eq (h : CompleteFrom finished response summary usage) :
    summary.tokensSaved = exactTotals (appliedSavings finished.contributions) := by
  rw [h.tokensSaved, values_ofList h.noOverflow]
  simp [countedSavings, appliedSavings, h.unambiguous]

theorem CompleteFrom.accounted (h : CompleteFrom finished response summary usage) :
    ∃ effective baseline, summary.effectiveUsage = some effective ∧
      summary.baselineUsage = some baseline ∧ Accounted effective baseline summary.tokensSaved := by
  obtain ⟨cost, heffective⟩ := h.effective
  obtain ⟨apiSplit, _, rfl, hclear, hbaseline⟩ := h.baseline
  obtain ⟨prompt, hprompt⟩ := promptTokens_of_core h.core
  refine ⟨_, _, heffective, hbaseline, ?_⟩
  rw [h.tokensSaved] at hclear ⊢
  -- the cost is not part of the account
  obtain ⟨h₁, h₂, h₃, h₄, h₅, h₆, h₇, h₈⟩ := accounted_of_derive hprompt hclear
  exact ⟨h₁, h₂, h₃, h₄, h₅, h₆, h₇, h₈⟩

section Complete

variable [Amounts] {finished : FinishedContributions} {response : Option AnnotatedLlmResponse}
  {requestedModel : Option String} {pricing : CostEstimator} {summary : LlmOptimizationSummary}
  (h : (finalizeOptimizationSummary finished response requestedModel pricing).1 = some summary)
  (hcomplete : summary.status = .complete)
include h hcomplete

/-- A complete summary is an exact account: the saved tokens are the sums over the applied
contributions in whatever order, and the baseline is the effective usage with them added, counted
by the same convention. -/
theorem complete_accounted :
    summary.tokensSaved = exactTotals (appliedSavings finished.contributions) ∧
      (∀ contributions, finished.contributions.Perm contributions →
        (analyzeContributions ⟨contributions, finished.limitations⟩).tokenTotals.values =
          summary.tokensSaved) ∧
      ∃ effective baseline, summary.effectiveUsage = some effective ∧
        summary.baselineUsage = some baseline ∧
        Accounted effective baseline summary.tokensSaved := by
  obtain ⟨usage, hfrom⟩ := completeFrom_of_finalize h hcomplete
  refine ⟨hfrom.tokensSaved_eq, ?_, hfrom.accounted⟩
  intro contributions hperm
  rw [hfrom.tokensSaved]
  exact congrArg (·.values) (CheckedTokenTotals.ofList_perm (countedSavings_perm hperm)).symm

/-- A compressed prompt for each of the savings. -/
def compressedPrompts (saved : List LlmOptimizationTokens) : FinishedContributions :=
  ⟨saved.mapIdx fun k tokens => ⟨none, some k, "compressor", "input_compression", true, none,
    some ⟨none, none, some tokens, none, none⟩, none, none, []⟩, []⟩

abbrev zeroAmounts : Amounts := ⟨fun _ _ => .zero, fun _ _ => .zero⟩

/-- The summary of compressed prompts, with costs that are all zero. -/
def compressedSummary (saved : List LlmOptimizationTokens) : Option LlmOptimizationSummary :=
  let _ := zeroAmounts
  (finalizeOptimizationSummary (compressedPrompts saved) (some ⟨none, some "model", none, none,
    none, some ⟨some 6, some 5, some 11, none, none, some 6, none⟩, none, none, []⟩) none
    fun _ _ _ => some ⟨some .zero, "USD", none, none, none, none, .modelPricing, none, none, none,
      none⟩).1

omit [Amounts] h hcomplete in
/-- Two compressed prompts, one of them with a shorter completion. -/
theorem complete_accounted_compressed :
    let saved := [⟨some 4, none, none, none, some 4⟩, ⟨some 2, some 3, none, none, some 5⟩]
    let finished := compressedPrompts saved
    ∃ summary, compressedSummary saved = some summary ∧ summary.status = .complete ∧
      summary.tokensSaved = exactTotals (appliedSavings finished.contributions) ∧
      (∀ contributions, finished.contributions.Perm contributions →
        (analyzeContributions ⟨contributions, finished.limitations⟩).tokenTotals.values =
          summary.tokensSaved) ∧
      ∃ effective baseline, summary.effectiveUsage = some effective ∧
        summary.baselineUsage = some baseline ∧
        Accounted effective baseline summary.tokensSaved := by
  let _ := zeroAmounts
  exact ⟨_, rfl, by decide +kernel, complete_accounted rfl (by decide +kernel)⟩

/-! ### The total -/

/-- The total of a usage is the sum of its counts. -/
def Usage.TotalIsSum (usage : Usage) : Prop :=
  ∃ prompt completion, usage.promptTokens = some prompt ∧
    usage.completionTokens = some completion ∧ usage.totalTokens = some (prompt + completion)

/-- The totals of savings are the sums of their counts, taken together. -/
def TotalsAddUp (saved : List LlmOptimizationTokens) : Prop :=
  CheckedSum.presentSum (saved.map (·.reportedTotal)) =
    CheckedSum.presentSum (saved.map (·.promptTokens)) +
      CheckedSum.presentSum (saved.map (·.completionTokens))

/-- The baseline of a complete summary has a total that is the sum of its counts iff the totals of
the applied contributions are. -/
theorem baseline_total_iff {effective : Usage}
    (heffective : summary.effectiveUsage = some effective) (htotal : effective.TotalIsSum) :
    (∃ baseline, summary.baselineUsage = some baseline ∧ baseline.TotalIsSum) ↔
      TotalsAddUp (appliedSavings finished.contributions) := by
  obtain ⟨usage, hfrom⟩ := completeFrom_of_finalize h hcomplete
  obtain ⟨effective', baseline, heffective', hbaseline, haccounted⟩ := hfrom.accounted
  cases heffective.symm.trans heffective'
  rw [hfrom.tokensSaved_eq] at haccounted
  obtain ⟨prompt, completion, hprompt, hcompletion, hsum⟩ := htotal
  have hprompt' := haccounted.prompt.eq_some hprompt
  have hcompletion' := haccounted.completion.eq_some hcompletion
  have hsum' := haccounted.total.eq_some hsum
  simp only [exactTotals, getD_exactSum] at hprompt' hcompletion' hsum'
  rw [TotalsAddUp]
  constructor
  · rintro ⟨_, hsome, _, _, h₁, h₂, h₃⟩
    cases hbaseline.symm.trans hsome
    cases hprompt'.symm.trans h₁
    cases hcompletion'.symm.trans h₂
    have := Option.some.inj (hsum'.symm.trans h₃)
    omega
  · intro hadd
    refine ⟨baseline, hbaseline, _, _, hprompt', hcompletion', hsum'.trans (congrArg some ?_)⟩
    omega

end Complete

theorem baseline_total_iff_compressed :
    let saved := [⟨some 4, none, none, none, some 5⟩, ⟨none, some 3, none, none, some 2⟩]
    ∃ summary effective, compressedSummary saved = some summary ∧
      summary.status = .complete ∧ summary.effectiveUsage = some effective ∧ effective.TotalIsSum ∧
      ((∃ baseline, summary.baselineUsage = some baseline ∧ baseline.TotalIsSum) ↔
        TotalsAddUp (appliedSavings (compressedPrompts saved).contributions)) := by
  let _ := zeroAmounts
  exact ⟨_, _, rfl, by decide +kernel, rfl, ⟨6, 5, rfl, rfl, rfl⟩,
    baseline_total_iff rfl (by decide +kernel) rfl ⟨6, 5, rfl, rfl, rfl⟩⟩

/-- A saving that reports its total only: the total of the baseline is five more than its counts. -/
theorem baseline_total_unaccounted :
    ∃ summary effective baseline,
      compressedSummary [⟨none, none, none, none, some 5⟩] = some summary ∧
      summary.status = .complete ∧ summary.effectiveUsage = some effective ∧
      effective.TotalIsSum ∧ summary.baselineUsage = some baseline ∧
      baseline.promptTokens = some 6 ∧ baseline.completionTokens = some 5 ∧
      baseline.totalTokens = some 16 := by
  exact ⟨_, _, _, rfl, by decide +kernel, rfl, ⟨6, 5, rfl, rfl, rfl⟩, rfl, by decide +kernel,
    by decide +kernel, by decide +kernel⟩

end NemoRelay
