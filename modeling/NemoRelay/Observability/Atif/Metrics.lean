import NemoRelay.Lib.FirstWins
import NemoRelay.Observability.Manual

/-!
# Metrics of a step

The token counts and the cost of a response, and how the metrics of one report complete those of
another. Metrics are a partial record: seven fields, and the members of `extra`.
-/

namespace NemoRelay.Observability

open Option hiding get

open SortedMap

structure AtifMetrics where
  promptTokens : Option Nat
  completionTokens : Option Nat
  cachedTokens : Option Nat
  costUsd : Option F64
  promptTokenIds : Option (List Nat)
  completionTokenIds : Option (List Nat)
  logprobs : Option (List F64)
  extra : Option Json
  deriving DecidableEq

def AtifMetrics.default : AtifMetrics := ⟨none, none, none, none, none, none, none, none⟩

/-! ### Extraction -/

def tokenUsageKnownKeys : List String :=
  ["prompt_tokens", "input_tokens", "inputTokens", "input", "completion_tokens", "output_tokens",
    "completionTokens", "outputTokens", "output", "cached_tokens", "cachedTokens",
    "cache_read_tokens", "cacheReadTokens", "cache_read_input_tokens", "cacheReadInputTokens",
    "cacheRead", "cache_creation_input_tokens", "cacheCreationInputTokens", "cache_write_tokens",
    "cacheWriteTokens", "cacheWrite", "cost_usd", "cost", "prompt_tokens_details",
    "input_tokens_details", "prompt_token_ids", "completion_token_ids", "logprobs"]

variable (output : Json)

def tokenUsageObject : Option Object :=
  ((output.get "token_usage").or (output.get "usage")).bind Json.asObject

def responseModelName : Option String := (output.get "model").bind Json.asStr

/-- The sum of two `u64` wraps around. -/
def sumOptions (left right : Option Nat) : Option Nat :=
  match left, right with
  | some left, some right => some ((left + right) % 2 ^ 64)
  | some value, none | none, some value => some value
  | none, none => none

/-- The usage members that have no field of their own; `token_usage` comes last. -/
def unknownUsage : Object :=
  insertFields [] ((((["usage", "token_usage"].filterMap fun key =>
    (output.get key).bind Json.asObject).flatten).filter fun entry =>
      entry.1 ∉ tokenUsageKnownKeys).map fun entry => (entry.1, some entry.2))

def withOptimization (extra : Object) (summary : LlmOptimizationSummary) : Object :=
  let relay := ((get extra "nemo_relay").bind Json.asObject).getD []
  insert extra "nemo_relay" (.obj (insert relay "optimization" (toValue summary)))

variable (normalized : Option AnnotatedLlmResponse)

def extraMembers : Object :=
  match normalized.bind (·.optimizationSummary) with
  | some summary => withOptimization (unknownUsage output) summary
  | none => unknownUsage output

def metricsExtra : Option Json :=
  let extra := extraMembers output normalized
  if extra.isEmpty then none else some (.obj extra)

section Amounts

variable [Amounts]

/-- A reported cost is not estimated again, even if it is in another currency. -/
def metricsCost (pricing : CostEstimator) (output : Json) (provider modelName : Option String)
    (normalized : Option AnnotatedLlmResponse) (merged : Option Usage) : Option F64 :=
  let normalizedCost := (normalized.bind (·.usage)).bind (·.cost)
  let explicitCost := match normalizedCost with
    | some cost => totalOrComponentSumForCurrency cost "USD"
    | none => costFromManualLlmOutput output
  let hasReportedCost := normalizedCost.isSome ||
    ((tokenUsageObject output).bind (get · "cost")).isSome
  if hasReportedCost then explicitCost
  else
    explicitCost.or do
      let usage ← merged
      let cost ← estimateCostForResponseOrModel pricing provider modelName
        ((normalized.bind (·.model)).or (responseModelName output)) usage
      totalForCurrency cost "USD"

def extractMetrics (pricing : CostEstimator) (output : Json) (provider modelName : Option String)
    (normalized : Option AnnotatedLlmResponse) : Option AtifMetrics :=
  let rawUsage := tokenUsageObject output
  let merged := mergeUsage (normalized.bind (·.usage)) (usageFromManualLlmOutput (some output))
  let items (key : String) : Option (List Json) :=
    (rawUsage.bind (get · key)).bind Json.asArray
  let metrics : AtifMetrics :=
    { promptTokens := merged.bind (inputTokensIncludingCache provider normalized)
      completionTokens := merged.bind (·.completionTokens)
      cachedTokens := sumOptions (merged.bind (·.cacheReadTokens)) (merged.bind (·.cacheWriteTotal))
      costUsd := metricsCost pricing output provider modelName normalized merged
      promptTokenIds := (items "prompt_token_ids").map (·.filterMap Json.asU64)
      completionTokenIds := (items "completion_token_ids").map (·.filterMap Json.asU64)
      logprobs := (items "logprobs").map (·.filterMap Json.asF64)
      extra := metricsExtra output normalized }
  if metrics.promptTokens.isNone && metrics.completionTokens.isNone &&
      metrics.cachedTokens.isNone && metrics.costUsd.isNone && metrics.extra.isNone then none
  else some metrics

end Amounts

/-! ### Merging -/

/-- Members that are missing are added. -/
def addMissing (target supplemental : Object) : Object :=
  supplemental.foldl (fun target entry =>
    if (get target entry.1).isSome then target
    else insert target entry.1 entry.2) target

def mergeMetricsExtra (target supplemental : Option Json) : Option Json :=
  match target, supplemental with
  | target, none => target
  | none, some supplemental => some supplemental
  | some target, some supplemental =>
    match target, supplemental with
    | .obj target, .obj supplemental => some (.obj (addMissing target supplemental))
    | target, _ => some target

def mergeMetricsFields (target supplemental : AtifMetrics) : AtifMetrics where
  promptTokens := target.promptTokens.or supplemental.promptTokens
  completionTokens := target.completionTokens.or supplemental.completionTokens
  cachedTokens := target.cachedTokens.or supplemental.cachedTokens
  costUsd := target.costUsd.or supplemental.costUsd
  promptTokenIds := target.promptTokenIds.or supplemental.promptTokenIds
  completionTokenIds := target.completionTokenIds.or supplemental.completionTokenIds
  logprobs := target.logprobs.or supplemental.logprobs
  extra := mergeMetricsExtra target.extra supplemental.extra

def mergeMetrics (primary supplemental : Option AtifMetrics) : Option AtifMetrics :=
  match primary, supplemental with
  | none, supplemental => supplemental
  | some metrics, none => some metrics
  | some metrics, some supplemental => some (mergeMetricsFields metrics supplemental)

/-! ### Metrics as a partial record -/

inductive MetricsField
  | promptTokens
  | completionTokens
  | cachedTokens
  | costUsd
  | promptTokenIds
  | completionTokenIds
  | logprobs
  | extra (key : String)

inductive MetricsValue
  | count (value : Nat)
  | amount (value : F64)
  | counts (values : List Nat)
  | amounts (values : List F64)
  | member (value : Json)

open AtifMetrics

namespace AtifMetrics

def field (metrics : AtifMetrics) : MetricsField → Option MetricsValue
  | .promptTokens => metrics.promptTokens.map .count
  | .completionTokens => metrics.completionTokens.map .count
  | .cachedTokens => metrics.cachedTokens.map .count
  | .costUsd => metrics.costUsd.map .amount
  | .promptTokenIds => metrics.promptTokenIds.map .counts
  | .completionTokenIds => metrics.completionTokenIds.map .counts
  | .logprobs => metrics.logprobs.map .amounts
  | .extra key => (metrics.extra.bind (·.get key)).map .member

/-- What `extra` is when it is there: an object with members. -/
structure ExtraWF (extra : Json) : Prop where
  isObject : ∃ entries, extra = .obj entries ∧ SortedMap.Sorted entries ∧ entries ≠ []

def WF (metrics : AtifMetrics) : Prop := ∀ extra, metrics.extra = some extra → ExtraWF extra

theorem wf_default : default.WF := nofun

end AtifMetrics

/-! ### Fields of merged metrics -/

theorem get_addMissing (target supplemental : Object) (key : String) :
    get (addMissing target supplemental) key = (get target key).or (get supplemental key) := by
  induction supplemental generalizing target with
  | nil => rw [get_nil, or_none]; rfl
  | cons entry supplemental ih =>
    rw [addMissing, List.foldl_cons, ← addMissing, ih, get_cons]
    split
    · rename_i hsome
      by_cases hkey : key = entry.1
      · subst hkey
        obtain ⟨value, hvalue⟩ := Option.isSome_iff_exists.mp hsome
        simp [hvalue]
      · simp [hkey]
    · rename_i hnone
      rw [get_insert]
      by_cases hkey : key = entry.1
      · subst hkey
        rw [not_isSome_iff_eq_none] at hnone
        simp [hnone]
      · simp [hkey]

theorem sorted_addMissing {target : Object} (h : Sorted target) (supplemental : Object) :
    Sorted (addMissing target supplemental) := by
  refine List.foldlRecOn supplemental _ h fun target h entry _ => ?_
  split
  · exact h
  · exact h.insert _ _

theorem get_obj (entries : Object) (key : String) :
    (Json.obj entries).get key = get entries key := rfl

section Merge

variable {target supplemental : AtifMetrics}

theorem wf_mergeMetricsFields (ht : target.WF) (hs : supplemental.WF) :
    (mergeMetricsFields target supplemental).WF := by
  intro extra hextra
  change mergeMetricsExtra target.extra supplemental.extra = some extra at hextra
  cases htarget : target.extra with
  | none =>
    rw [htarget] at hextra
    cases hsupplemental : supplemental.extra with
    | none => rw [hsupplemental] at hextra; cases hextra
    | some extra' =>
      rw [hsupplemental] at hextra
      cases hextra
      exact hs _ hsupplemental
  | some first =>
    obtain ⟨entries, rfl, hsorted, hne⟩ := (ht _ htarget).isObject
    rw [htarget] at hextra
    cases hsupplemental : supplemental.extra with
    | none =>
      rw [hsupplemental] at hextra
      cases hextra
      exact ⟨entries, rfl, hsorted, hne⟩
    | some second =>
      obtain ⟨entries', rfl, -, -⟩ := (hs _ hsupplemental).isObject
      rw [hsupplemental] at hextra
      cases hextra
      refine ⟨_, rfl, sorted_addMissing hsorted _, ?_⟩
      intro hnil
      obtain ⟨entry, rest, rfl⟩ := List.exists_cons_of_ne_nil hne
      have hget := get_addMissing (entry :: rest) entries' entry.1
      rw [hnil, get_cons, if_pos rfl] at hget
      cases hget

theorem get_mergeMetricsExtra (ht : target.WF) (hs : supplemental.WF) (key : String) :
    (mergeMetricsExtra target.extra supplemental.extra).bind (·.get key) =
      (target.extra.bind (·.get key)).or (supplemental.extra.bind (·.get key)) := by
  cases htarget : target.extra with
  | none => cases supplemental.extra <;> rfl
  | some first =>
    obtain ⟨entries, rfl, -, -⟩ := (ht _ htarget).isObject
    cases hsupplemental : supplemental.extra with
    | none => exact Option.or_none.symm
    | some second =>
      obtain ⟨entries', rfl, -, -⟩ := (hs _ hsupplemental).isObject
      exact get_addMissing entries entries' key

/-- Merging keeps what is there. -/
theorem field_mergeMetricsFields (ht : target.WF) (hs : supplemental.WF) :
    (mergeMetricsFields target supplemental).field =
      FirstWins.merge target.field supplemental.field := by
  funext name
  cases name with
  | extra key =>
    have hget := get_mergeMetricsExtra ht hs key
    simp only [field, FirstWins.merge, mergeMetricsFields]
    rw [hget, map_or]
  | _ => simp only [field, FirstWins.merge, mergeMetricsFields, map_or]

end Merge

theorem AtifMetrics.field_default : default.field = fun _ => none := by
  funext name
  cases name <;> rfl

open MetricsValue

/-- Metrics are determined by their fields. -/
theorem AtifMetrics.ext_field {metrics metrics' : AtifMetrics} (h : metrics.WF) (h' : metrics'.WF)
    (hfield : metrics.field = metrics'.field) : metrics = metrics' := by
  have hat := fun name => congrFun hfield name
  have hextra : metrics.extra = metrics'.extra := by
    have hget : ∀ key, metrics.extra.bind (·.get key) = metrics'.extra.bind (·.get key) := by
      intro key
      exact map_injective (fun _ _ => member.inj) (hat (.extra key))
    cases hm : metrics.extra with
    | none =>
      cases hm' : metrics'.extra with
      | none => rfl
      | some extra =>
        obtain ⟨entries, rfl, -, hne⟩ := (h' _ hm').isObject
        obtain ⟨entry, rest, rfl⟩ := List.exists_cons_of_ne_nil hne
        have hkey := hget entry.1
        simp [hm, hm', get_obj, get_cons] at hkey
    | some extra =>
      obtain ⟨entries, rfl, hsorted, hne⟩ := (h _ hm).isObject
      cases hm' : metrics'.extra with
      | none =>
        obtain ⟨entry, rest, rfl⟩ := List.exists_cons_of_ne_nil hne
        have hkey := hget entry.1
        simp [hm, hm', get_obj, get_cons] at hkey
      | some extra' =>
        obtain ⟨entries', rfl, hsorted', -⟩ := (h' _ hm').isObject
        have hentries : entries = entries' := by
          apply ext hsorted hsorted'
          intro key
          have hkey := hget key
          rwa [hm, hm'] at hkey
        rw [hentries]
  have hcount : ∀ {a b : Option Nat}, a.map count = b.map .count → a = b :=
    fun h => map_injective (fun _ _ => count.inj) h
  have hcounts : ∀ {a b : Option (List Nat)}, a.map counts = b.map .counts → a = b :=
    fun h => map_injective (fun _ _ => counts.inj) h
  cases metrics
  cases metrics'
  simp only [mk.injEq]
  exact ⟨hcount (hat .promptTokens), hcount (hat .completionTokens), hcount (hat .cachedTokens),
    map_injective (fun _ _ => amount.inj) (hat .costUsd),
    hcounts (hat .promptTokenIds), hcounts (hat .completionTokenIds),
    map_injective (fun _ _ => amounts.inj) (hat .logprobs), hextra⟩

/-! ### Fields of extracted metrics -/

theorem sorted_extraMembers : Sorted (extraMembers output normalized) := by
  have hsorted : Sorted (unknownUsage output) :=
    sorted_insertFields List.Pairwise.nil _
  unfold extraMembers
  split
  · exact hsorted.insert _ _
  · exact hsorted

variable {normalized : Option AnnotatedLlmResponse}

theorem extraWF_metricsExtra {output extra : Json}
    (h : metricsExtra output normalized = some extra) : ExtraWF extra := by
  unfold metricsExtra at h
  dsimp only at h
  split at h
  · cases h
  · rename_i hne
    rw [List.isEmpty_iff] at hne
    cases h
    exact ⟨_, rfl, sorted_extraMembers output normalized, hne⟩

theorem wf_extractMetrics [Amounts] {pricing : CostEstimator} {output : Json}
    {provider modelName : Option String} {metrics : AtifMetrics}
    (h : extractMetrics pricing output provider modelName normalized = some metrics) :
    metrics.WF := by
  unfold extractMetrics at h
  dsimp only at h
  split at h
  · cases h
  · cases h
    exact fun extra hextra => extraWF_metricsExtra hextra

/-- The fields of metrics that may be missing. -/
def fieldOf? (metrics : Option AtifMetrics) : MetricsField → Option MetricsValue :=
  fun name => metrics.bind (·.field name)

theorem fieldOf?_mergeMetrics {primary supplemental : Option AtifMetrics}
    (hp : ∀ metrics, primary = some metrics → metrics.WF)
    (hs : ∀ metrics, supplemental = some metrics → metrics.WF) :
    fieldOf? (mergeMetrics primary supplemental) =
      FirstWins.merge (fieldOf? primary) (fieldOf? supplemental) := by
  cases primary with
  | none => rfl
  | some first =>
    cases supplemental with
    | none => exact (FirstWins.merge_none _).symm
    | some second => exact field_mergeMetricsFields (hp _ rfl) (hs _ rfl)

end NemoRelay.Observability
