import Mathlib.Algebra.Order.BigOperators.Group.List
import NemoRelay.Adaptive.Breakpoint
import NemoRelay.Adaptive.Planning

/-!
# From a plan to hints

The planned breakpoints of a prompt become intents, and the translator for Anthropic turns intents
into directives. It checks each of them once more: against the number of breakpoints placed so far,
and against its own estimate of the tokens of the prefix, which wraps around where the estimate of
the planner saturates.

Both look up the model in the capabilities of the backend, which are a hash map: the orders of
iteration are arguments. The intent identifiers and the agent identity are left out, and an intent
that the translator ignores is its type.
-/

namespace NemoRelay.Acg

open List

open AnthropicMessagesCodec (decode decodes_of_decodeObject)

/-! ### Intents -/

inductive RequestSurface
  | anthropicMessages
  | openAIChat
  | openAIResponses
  deriving DecidableEq

structure CacheStabilityIntent (R : Type) where
  stabilityScore : R
  stablePrefixEnd : Nat
  scopeLabel : SharingScope
  confidence : R
  evidenceCount : Nat

inductive RetentionTier
  | ephemeral
  | shortLived
  | sessionDuration
  | longLived
  | permanent

inductive IntentType
  | cacheStability
  | contentExtraction
  | serialization
  | priority
  | modelRouting
  | placement
  | retention
  | toolScope
  | compression

inductive OptimizationIntent (R : Type)
  | cacheStability (intent : CacheStabilityIntent R)
  | retention (recommendedTier : RetentionTier)
  | other (intentType : IntentType)

structure BackendCapabilities (R : Type) where
  modelFamilies : OrderedMap String (ModelFamilyCapabilities R)

section Intents

variable {R : Type} (order : String → Nat) (backend : BackendCapabilities R)

/-- The family of the exact name, or else the one with the longest name that the model starts
with. -/
def resolveModelFamilyCapabilities (modelName : String) : Option (ModelFamilyCapabilities R) :=
  (backend.modelFamilies.get modelName).or
    ((Tally.lastMax (fun entry => entry.1.utf8ByteSize)
      ((backend.modelFamilies.iterate order).filter fun entry =>
        entry.1.toList.isPrefixOf modelName.toList)).map (·.2))

variable [Pricing R] (stability : StabilityAnalysisResult R) (stablePrefixEnd : Nat)
  (scopeLabel : SharingScope)

/-- The intent for a prefix with scores. -/
def prefixIntent : CacheStabilityIntent R :=
  let prefixScores := stability.scores.take stablePrefixEnd
  { stabilityScore := (prefixScores.map (·.score)).foldl Score.least (ofCount 1)
    stablePrefixEnd
    scopeLabel
    confidence := (prefixScores.map (·.confidence)).foldl Score.least (ofCount 1)
    evidenceCount := stability.totalObservations }

def buildCacheStabilityIntent : Option (OptimizationIntent R) :=
  if (stability.scores.take stablePrefixEnd).isEmpty then none
  else some (.cacheStability (prefixIntent stability stablePrefixEnd scopeLabel))

/-- The plan that `build_anthropic_cache_intents` makes, if the model is known. -/
def anthropicCachePlan (annotatedRequest : AnnotatedLlmRequest) (promptIr : PromptIR)
    (stability : StabilityAnalysisResult R) (observationCount : Nat) :
    Option (EconomicsPlan R) := do
  let modelName ← annotatedRequest.model
  let capabilities ← resolveModelFamilyCapabilities order backend modelName
  return planBreakpoints promptIr stability observationCount capabilities

def buildAnthropicCacheIntents (requestSurface : RequestSurface)
    (annotatedRequest : AnnotatedLlmRequest) (promptIr : PromptIR)
    (stability : StabilityAnalysisResult R) (observationCount : Nat) :
    Option (List (OptimizationIntent R)) :=
  if requestSurface ≠ .anthropicMessages then none
  else do
    let plan ← anthropicCachePlan order backend annotatedRequest promptIr stability observationCount
    if plan.plannedBreakpoints.isEmpty then none
    else plan.plannedBreakpoints.mapM fun breakpoint =>
      buildCacheStabilityIntent stability breakpoint.stablePrefixEnd breakpoint.scope

end Intents

/-! ### Translation -/

inductive TranslationStatus
  | applied
  | degraded
  | ignored
  | rejected

inductive ReasonCode
  | fullySupported
  | backendLimitReached
  | insufficientEvidence
  | notRelevant

structure IntentOutcome where
  intentType : IntentType
  status : TranslationStatus
  reason : ReasonCode
  detail : Option String

structure AnthropicTranslationContext where
  maxCacheBreakpoints : Nat
  minCacheableTokens : Nat

structure PrefixTokenEstimate where
  cumulativeTokens : Nat
  usedFallback : Bool

/-- What the loop over the intents changes. -/
structure TranslationState where
  hintPlan : HintPlan
  outcomes : List IntentOutcome
  breakpointsPlaced : Nat

def IntentType.debug : IntentType → String
  | cacheStability => "CacheStability"
  | contentExtraction => "ContentExtraction"
  | serialization => "Serialization"
  | priority => "Priority"
  | modelRouting => "ModelRouting"
  | placement => "Placement"
  | retention => "Retention"
  | toolScope => "ToolScope"
  | compression => "Compression"

def formatScope : SharingScope → String
  | .request => "request"
  | .session => "session"
  | .tenant => "tenant"
  | .global => "global"

/-- `estimate_block_tokens` of the translator: the length is cut to 32 bits first. -/
def translateBlockTokens (block : PromptBlock) : Nat × Bool :=
  match block.tokenMetadata with
  | some metadata => (metadata.tokenCount, false)
  | none => (block.content.utf8ByteSize % 2 ^ 32 / 4, true)

/-- `estimate_prefix_tokens`; the sum wraps around. -/
def translatePrefixTokens (blocks : List PromptBlock) : PrefixTokenEstimate :=
  blocks.foldl (fun estimate block =>
    { cumulativeTokens := (estimate.cumulativeTokens + (translateBlockTokens block).1) % 2 ^ 32
      usedFallback := estimate.usedFallback || (translateBlockTokens block).2 }) ⟨0, false⟩

variable (promptIr : PromptIR)

def stablePrefixTarget (endExclusive : Nat) : HintTarget :=
  match min endExclusive promptIr.blocks.length with
  | 0 => .stablePrefix 0 none
  | index + 1 => .stablePrefix (index + 1) ((promptIr.blocks[index]?).map (·.spanId))

def HintPlan.hasAnthropicBreakpoint (plan : HintPlan) : Bool :=
  plan.directives.any fun
    | .anthropic (.cacheBreakpoint _) => true
    | _ => false

namespace TranslationState

variable (state : TranslationState)

def push (directive : AnthropicHintDirective) : TranslationState :=
  { state with
    hintPlan :=
      { state.hintPlan with directives := state.hintPlan.directives ++ [.anthropic directive] } }

def report (intentType : IntentType) (status : TranslationStatus) (reason : ReasonCode)
    (detail : String) : TranslationState :=
  { state with outcomes := state.outcomes ++ [⟨intentType, status, reason, some detail⟩] }

end TranslationState

def reportPlaced (state : TranslationState) (scopeLabel : SharingScope) (endIndex : Nat)
    (usedFallback : Bool) : TranslationState :=
  if usedFallback then
    state.report .cacheStability .degraded .insufficientEvidence
      "token count estimated via chars/4 heuristic; actual tokenization unavailable"
  else
    state.report .cacheStability .applied .fullySupported
      ("breakpoint planned at stable prefix " ++ toString endIndex ++ ", scope=" ++
        formatScope scopeLabel)

section Translate

variable {R : Type} (context : AnthropicTranslationContext) (state : TranslationState)

def handleCacheStabilityIntent (intent : CacheStabilityIntent R) : TranslationState :=
  if context.maxCacheBreakpoints ≤ state.breakpointsPlaced then
    state.report .cacheStability .degraded .backendLimitReached
      (toString context.maxCacheBreakpoints ++ " breakpoints already placed, max reached")
  else
    let endIndex := min intent.stablePrefixEnd promptIr.blocks.length
    let estimate := translatePrefixTokens (promptIr.blocks.take endIndex)
    if estimate.cumulativeTokens < context.minCacheableTokens then
      state.report .cacheStability .degraded .backendLimitReached
        ("cumulative tokens (" ++ toString estimate.cumulativeTokens ++
          ") below model minimum (" ++ toString context.minCacheableTokens ++ ")")
    else
      let state := state.push (.cacheBreakpoint (stablePrefixTarget promptIr endIndex))
      reportPlaced { state with breakpointsPlaced := state.breakpointsPlaced + 1 }
        intent.scopeLabel endIndex estimate.usedFallback

def handleRetentionIntent : RetentionTier → TranslationState
  | .ephemeral | .shortLived =>
    state.report .retention .applied .fullySupported "using Anthropic default 5m TTL"
  | .sessionDuration | .longLived | .permanent =>
    if state.hintPlan.hasAnthropicBreakpoint then
      (state.push (.applyTtl .oneHour)).report .retention .applied .fullySupported
        "applied 1h extended TTL to all cache_control annotations"
    else
      state.report .retention .degraded .backendLimitReached "no breakpoints to apply TTL to"

def translateIntent : OptimizationIntent R → TranslationState
  | .cacheStability intent => handleCacheStabilityIntent promptIr context state intent
  | .retention tier => handleRetentionIntent state tier
  | .other intentType =>
    state.report intentType .ignored .notRelevant
      ("Anthropic plugin does not handle " ++ intentType.debug ++ " intents")

def defaultMaxCacheBreakpoints : Nat := 4

def defaultMinCacheableTokens : Nat := 1024

variable (order : String → Nat) (backend : BackendCapabilities R) (rewrittenRequest : LlmRequest)

def requestModelName : String :=
  ((rewrittenRequest.content.get "model").bind Json.asStr).getD "unknown"

def buildTranslationContext : AnthropicTranslationContext :=
  let modelCapabilities :=
    resolveModelFamilyCapabilities order backend (requestModelName rewrittenRequest)
  { maxCacheBreakpoints :=
      (modelCapabilities.bind (·.maxCacheBreakpoints)).getD defaultMaxCacheBreakpoints
    minCacheableTokens :=
      (modelCapabilities.bind (·.minCacheableTokens)).getD defaultMinCacheableTokens }

def translate (promptIr : PromptIR) (intents : List (OptimizationIntent R)) : TranslationState :=
  intents.foldl
    (translateIntent promptIr (buildTranslationContext order backend rewrittenRequest))
    { hintPlan := ⟨"anthropic", [.anthropic .canonicalizeToolSchemas]⟩
      outcomes := []
      breakpointsPlaced := 0 }

end Translate

/-! ### Looking up the model -/

theorem eq_of_toList_prefix {a b text : String} (ha : a.toList <+: text.toList)
    (hb : b.toList <+: text.toList) (hsize : a.utf8ByteSize = b.utf8ByteSize) : a = b := by
  -- the longer one is the shorter one with an empty rest
  have hlonger : ∀ {a b : String}, a.toList <+: b.toList → a.utf8ByteSize = b.utf8ByteSize →
      a = b := by
    intro a b hprefix hsize
    obtain ⟨rest, hrest⟩ := hprefix
    have hb : b = a ++ String.ofList rest := by
      rw [← String.toList_inj, String.toList_append, String.toList_ofList, hrest]
    rw [hb, String.utf8ByteSize_append] at hsize
    rw [hb, String.utf8ByteSize_eq_zero_iff.mp (by omega : (String.ofList rest).utf8ByteSize = 0),
      String.append_empty]
  obtain h | h := prefix_or_prefix_of_prefix ha hb
  · exact hlonger h hsize
  · exact (hlonger h hsize.symm).symm

/-- The order of iteration makes no difference: two families of one length that a model starts
with are the same. -/
theorem resolveModelFamilyCapabilities_order {R : Type} (order order' : String → Nat)
    (backend : BackendCapabilities R) (modelName : String) :
    resolveModelFamilyCapabilities order backend modelName =
      resolveModelFamilyCapabilities order' backend modelName := by
  have hperm := (backend.modelFamilies.iterate_perm order).trans
    (backend.modelFamilies.iterate_perm order').symm
  unfold resolveModelFamilyCapabilities
  rw [Tally.lastMax_perm (hperm.filter _)]
  rintro ⟨family, capabilities⟩ hmem ⟨family', capabilities'⟩ hmem' hsize
  simp only [mem_filter, OrderedMap.mem_iterate, isPrefixOf_iff_prefix] at hmem hmem'
  obtain rfl : family = family' := eq_of_toList_prefix hmem.2 hmem'.2 hsize
  rw [Option.some.inj (hmem.1.symm.trans hmem'.1)]

variable {annotated : AnnotatedLlmRequest}

theorem requestModelName_of_decode [ErrorTexts] {request : LlmRequest}
    (h : decode request = .ok annotated) {modelName : String}
    (hmodel : annotated.model = some modelName) : requestModelName request = modelName := by
  unfold decode at h
  split at h
  · next obj hcontent =>
    have hread := (decodes_of_decodeObject h).model
    rw [hmodel] at hread
    obtain ⟨value, hvalue, htext⟩ := hread
    have hmember : request.content.get "model" = some value := by rw [hcontent]; exact hvalue
    have htext : value.asStr = some modelName := htext
    rw [requestModelName, hmember, Option.bind_some, htext, Option.getD_some]
  · cases h

/-! ### Estimating tokens -/

theorem tokenMetadata_of_buildPromptIr [Canonicalization] {request : AnnotatedLlmRequest}
    {ir : PromptIR} (h : buildPromptIr request = .ok ir) :
    ∀ block ∈ ir.blocks, block.tokenMetadata = none := by
  obtain ⟨_, layout, -, -, hblocks⟩ := buildPromptIr_eq_ok h
  intro block hblock
  rw [hblocks, mem_mapIdx] at hblock
  obtain ⟨_, _, rfl⟩ := hblock
  rfl

/-- The bytes of a prompt. -/
def contentBytes (blocks : List PromptBlock) : Nat :=
  (blocks.map fun block => block.content.utf8ByteSize).sum

variable (blocks : List PromptBlock)

theorem contentBytes_take_le (k : Nat) : contentBytes (blocks.take k) ≤ contentBytes blocks := by
  rw [contentBytes, map_take]
  exact (take_sublist k _).sum_le_sum (by simp)

theorem cumulativeTokens_foldl (estimate : PrefixTokenEstimate)
    (h : estimate.cumulativeTokens < 2 ^ 32) :
    (blocks.foldl (fun estimate block =>
      { cumulativeTokens := (estimate.cumulativeTokens + (translateBlockTokens block).1) % 2 ^ 32
        usedFallback := estimate.usedFallback || (translateBlockTokens block).2 :
          PrefixTokenEstimate }) estimate).cumulativeTokens =
      (estimate.cumulativeTokens +
        (blocks.map fun block => (translateBlockTokens block).1).sum) % 2 ^ 32 := by
  induction blocks generalizing estimate with
  | nil => exact (Nat.mod_eq_of_lt h).symm
  | cons block blocks ih =>
    rw [foldl_cons, ih _ (Nat.mod_lt _ (by decide)), map_cons, sum_cons]
    dsimp only
    omega

/-- The estimates agree on a prompt below `2 ^ 32` bytes: none of the sums leaves its range. -/
theorem translatePrefixTokens_eq {blocks : List PromptBlock}
    (hmetadata : ∀ block ∈ blocks, block.tokenMetadata = none)
    (hbytes : contentBytes blocks < 2 ^ 32) :
    (translatePrefixTokens blocks).cumulativeTokens =
      min (blocks.map estimateBlockTokens).sum u32Max := by
  have hsize : ∀ block ∈ blocks, block.content.utf8ByteSize < 2 ^ 32 := by
    intro block hblock
    refine lt_of_le_of_lt ?_ hbytes
    exact le_sum_of_mem (mem_map_of_mem hblock)
  have htokens : blocks.map (fun block => (translateBlockTokens block).1) =
      blocks.map estimateBlockTokens := by
    refine map_congr_left fun block hblock => ?_
    have hlt := hsize block hblock
    simp only [translateBlockTokens, estimateBlockTokens, hmetadata block hblock]
    rw [u32Max]
    omega
  have hsum : (blocks.map estimateBlockTokens).sum ≤ contentBytes blocks := by
    refine sum_le_sum fun block hblock => ?_
    simp only [estimateBlockTokens, hmetadata block hblock]
    omega
  rw [translatePrefixTokens, cumulativeTokens_foldl _ _ (by simp), htokens, u32Max]
  simp only [Nat.zero_add]
  omega

/-! ### Placing -/

section Place

variable {R : Type} {ir : PromptIR} {context : AnthropicTranslationContext}

/-- A breakpoint at the end of a prefix. -/
def breakpointAt (ir : PromptIR) (endExclusive : Nat) : HintDirective :=
  .anthropic (.cacheBreakpoint (stablePrefixTarget ir endExclusive))

/-- An intent within the limits adds its breakpoint. -/
theorem handleCacheStabilityIntent_placed {state : TranslationState}
    {intent : CacheStabilityIntent R} (hend : intent.stablePrefixEnd ≤ ir.blocks.length)
    (hplaced : state.breakpointsPlaced < context.maxCacheBreakpoints)
    (htokens : context.minCacheableTokens ≤
      (translatePrefixTokens (ir.blocks.take intent.stablePrefixEnd)).cumulativeTokens) :
    (handleCacheStabilityIntent ir context state intent).hintPlan.directives =
        state.hintPlan.directives ++ [breakpointAt ir intent.stablePrefixEnd] ∧
      (handleCacheStabilityIntent ir context state intent).breakpointsPlaced =
        state.breakpointsPlaced + 1 := by
  unfold handleCacheStabilityIntent
  rw [if_neg (by omega)]
  rw [Nat.min_eq_left hend, if_neg (by omega), reportPlaced]
  split <;> exact ⟨rfl, rfl⟩

/-- Intents within the limits add their breakpoints, in their order. -/
theorem translateIntents_placed (ir : PromptIR) (context : AnthropicTranslationContext)
    (state : TranslationState) (intents : List (CacheStabilityIntent R))
    (hend : ∀ intent ∈ intents, intent.stablePrefixEnd ≤ ir.blocks.length)
    (hplaced : state.breakpointsPlaced + intents.length ≤ context.maxCacheBreakpoints)
    (htokens : ∀ intent ∈ intents, context.minCacheableTokens ≤
      (translatePrefixTokens (ir.blocks.take intent.stablePrefixEnd)).cumulativeTokens) :
    ((intents.map OptimizationIntent.cacheStability).foldl (translateIntent ir context)
        state).hintPlan.directives =
      state.hintPlan.directives ++
        intents.map fun intent => breakpointAt ir intent.stablePrefixEnd := by
  induction intents generalizing state with
  | nil => simp
  | cons intent intents ih =>
    rw [length_cons] at hplaced
    obtain ⟨hdirectives, hcount⟩ := handleCacheStabilityIntent_placed
      (hend intent mem_cons_self) (by omega : state.breakpointsPlaced < _)
      (htokens intent mem_cons_self)
    rw [map_cons, foldl_cons, translateIntent,
      ih _ (fun other hother => hend other (mem_cons_of_mem _ hother)) (by omega)
        (fun other hother => htokens other (mem_cons_of_mem _ hother)), hdirectives]
    simp

/-- The target of a prefix is its last block. -/
theorem resolve_stablePrefixTarget (hir : ir.Indexed) {i : Nat} (hi : i < ir.blocks.length) :
    resolveTargetBlockIndex ir (stablePrefixTarget ir (i + 1)) = some i := by
  refine resolveTargetBlockIndex_eq hir ?_
  have hmin : min (i + 1) ir.blocks.length = i + 1 := by omega
  rw [stablePrefixTarget, hmin]
  simp only [getElem?_eq_getElem hi]
  exact .lastSpan (getElem?_eq_getElem hi)

variable [Pricing R] {stability : StabilityAnalysisResult R}

theorem buildCacheStabilityIntent_eq {end_ : Nat} (hend : 0 < end_)
    (hscores : stability.scores ≠ []) (scope : SharingScope) :
    buildCacheStabilityIntent stability end_ scope =
      some (.cacheStability (prefixIntent stability end_ scope)) := by
  have hne : stability.scores.take end_ ≠ [] := by
    simp [hscores]
    omega
  rw [buildCacheStabilityIntent, if_neg (by simpa using hne)]

variable {backend : BackendCapabilities R}

/-- The translator estimates a priced prefix as the planner does. -/
theorem translatePrefixTokens_of_stats [Canonicalization] (hir : buildPromptIr annotated = .ok ir)
    (hbytes : contentBytes ir.blocks < 2 ^ 32) {stablePrefixEnd k : Nat} {entry : PrefixStats R}
    (h : (buildPrefixStats ir stability stablePrefixEnd)[k]? = some entry) :
    (translatePrefixTokens (ir.blocks.take (k + 1))).cumulativeTokens = entry.cumulativeTokens := by
  have hmetadata : ∀ block ∈ ir.blocks.take (k + 1), block.tokenMetadata = none :=
    fun block hblock => tokenMetadata_of_buildPromptIr hir block (mem_of_mem_take hblock)
  rw [translatePrefixTokens_eq hmetadata ((contentBytes_take_le ir.blocks (k + 1)).trans_lt hbytes),
    (getElem?_buildPrefixStats h).2.2]

/-- A plan that is not empty becomes one intent for each breakpoint. -/
theorem buildAnthropicCacheIntents_eq {order : String → Nat} {observationCount : Nat}
    {plan : EconomicsPlan R}
    (hplan : anthropicCachePlan order backend annotated ir stability observationCount = some plan)
    (hplanned : plan.plannedBreakpoints ≠ []) (hscores : stability.scores ≠ [])
    (hend : ∀ breakpoint ∈ plan.plannedBreakpoints, 0 < breakpoint.stablePrefixEnd) :
    buildAnthropicCacheIntents order backend .anthropicMessages annotated ir stability
        observationCount =
      some (plan.plannedBreakpoints.map fun breakpoint =>
        .cacheStability (prefixIntent stability breakpoint.stablePrefixEnd breakpoint.scope)) := by
  rw [buildAnthropicCacheIntents, if_neg (by simp), hplan]
  simp only [bind, Option.bind_some]
  rw [if_neg (by simpa using hplanned)]
  refine mapM_eq_some.mpr (forall₂_map_right_iff.mpr (forall₂_same.mpr ?_))
  exact fun breakpoint hbreakpoint =>
    buildCacheStabilityIntent_eq (hend breakpoint hbreakpoint) hscores breakpoint.scope

/-- After the canonicalization of the tools, the directives are one breakpoint of its own for each
of the planned ones: it targets the last block of the planned prefix. -/
def PlacesAll (ir : PromptIR) (planned : List (PlannedBreakpoint R))
    (directives : List HintDirective) : Prop :=
  ∃ targets : List HintTarget,
    directives = .anthropic .canonicalizeToolSchemas ::
      targets.map (fun target => .anthropic (.cacheBreakpoint target)) ∧
    List.Forall₂ (fun breakpoint target => 0 < breakpoint.stablePrefixEnd ∧
      resolveTargetBlockIndex ir target = some (breakpoint.stablePrefixEnd - 1)) planned targets ∧
    targets.Nodup

/-- Every planned breakpoint becomes an intent, and the intent a directive. The plan and the
translation look up the model in the same capabilities, each in an order of its own. -/
theorem planned_breakpoints_placed [Canonicalization] [ErrorTexts] (order order' : String → Nat)
    (backend : BackendCapabilities R) {request : LlmRequest} {annotated : AnnotatedLlmRequest}
    (hdecode : decode request = .ok annotated) {ir : PromptIR}
    (hir : buildPromptIr annotated = .ok ir) (hbytes : contentBytes ir.blocks < 2 ^ 32)
    (stability : StabilityAnalysisResult R) (observationCount : Nat) {plan : EconomicsPlan R}
    (hplan : anthropicCachePlan order backend annotated ir stability observationCount = some plan)
    (hplanned : plan.plannedBreakpoints ≠ []) :
    ∃ intents, buildAnthropicCacheIntents order backend .anthropicMessages annotated ir stability
        observationCount = some intents ∧
      PlacesAll ir plan.plannedBreakpoints
        (translate order' backend request ir intents).hintPlan.directives := by
  obtain ⟨modelName, hmodel, hknown⟩ := Option.bind_eq_some_iff.mp hplan
  obtain ⟨capabilities, hcapabilities, hmade⟩ := Option.bind_eq_some_iff.mp hknown
  obtain ⟨hincreasing, hlimits⟩ := planned_of_plan ir stability observationCount capabilities
  rw [Option.some.inj hmade] at hincreasing hlimits
  obtain ⟨maxBreakpoints, minimumTokens, hmax, hmin, hlength, hspec⟩ := hlimits hplanned
  -- a planned prefix ends in a block with a score, and is long enough for the translator
  have hwithin : ∀ breakpoint ∈ plan.plannedBreakpoints,
      0 < breakpoint.stablePrefixEnd ∧ breakpoint.stablePrefixEnd ≤ ir.blocks.length ∧
        stability.scores ≠ [] ∧ minimumTokens ≤
          (translatePrefixTokens (ir.blocks.take breakpoint.stablePrefixEnd)).cumulativeTokens := by
    intro breakpoint hbreakpoint
    obtain ⟨k, entry, hentry, hend, -, hsize⟩ := hspec breakpoint hbreakpoint
    obtain ⟨hblocks, hscores, -⟩ := getElem?_buildPrefixStats hentry
    rw [hend, translatePrefixTokens_of_stats hir hbytes hentry]
    exact ⟨by omega, by omega, ne_nil_of_length_pos (by omega), hsize⟩
  have hresolve : ∀ breakpoint ∈ plan.plannedBreakpoints,
      resolveTargetBlockIndex ir (stablePrefixTarget ir breakpoint.stablePrefixEnd) =
        some (breakpoint.stablePrefixEnd - 1) := by
    intro breakpoint hbreakpoint
    obtain ⟨hpos, hle, -⟩ := hwithin breakpoint hbreakpoint
    have hlast := resolve_stablePrefixTarget (indexed_of_buildPromptIr hir)
      (by omega : breakpoint.stablePrefixEnd - 1 < ir.blocks.length)
    rwa [Nat.sub_add_cancel hpos] at hlast
  obtain ⟨first, hfirst⟩ := exists_mem_of_ne_nil _ hplanned
  refine ⟨_, buildAnthropicCacheIntents_eq hplan hplanned (hwithin first hfirst).2.2.1
    fun breakpoint hbreakpoint => (hwithin breakpoint hbreakpoint).1,
    plan.plannedBreakpoints.map fun breakpoint =>
      stablePrefixTarget ir breakpoint.stablePrefixEnd, ?_, ?_, ?_⟩
  · rw [← requestModelName_of_decode hdecode hmodel] at hcapabilities
    have hplaced := translateIntents_placed ir ⟨maxBreakpoints, minimumTokens⟩
      ⟨⟨"anthropic", [.anthropic .canonicalizeToolSchemas]⟩, [], 0⟩
      (plan.plannedBreakpoints.map fun breakpoint =>
        prefixIntent stability breakpoint.stablePrefixEnd breakpoint.scope)
      (by simpa [prefixIntent] using fun breakpoint hbreakpoint =>
        (hwithin breakpoint hbreakpoint).2.1)
      (by simpa using hlength) (by simpa [prefixIntent] using fun breakpoint hbreakpoint =>
        (hwithin breakpoint hbreakpoint).2.2.2)
    rw [map_map] at hplaced
    rw [translate, buildTranslationContext, resolveModelFamilyCapabilities_order order' order,
      hcapabilities, Option.bind_some, Option.bind_some, hmax, hmin]
    refine hplaced.trans ?_
    simp [breakpointAt, prefixIntent]
  · refine forall₂_map_right_iff.mpr (forall₂_same.mpr fun breakpoint hbreakpoint => ?_)
    exact ⟨(hwithin breakpoint hbreakpoint).1, hresolve breakpoint hbreakpoint⟩
  · rw [List.Nodup, pairwise_map]
    refine hincreasing.imp_of_mem fun {a b} ha hb hlt heq => ?_
    have hindex := (hresolve a ha).symm.trans ((congrArg _ heq).trans (hresolve b hb))
    have hpos := (hwithin a ha).1
    have := Option.some.inj hindex
    omega

end Place

/-- Two user messages, priced so that a breakpoint after each of them pays. -/
theorem planned_breakpoints_placed_user :
    letI := forgetful
    letI := OpenAIChatCodec.noTexts
    let request : LlmRequest := ⟨[], .obj
      [("messages", .arr (["hello, world", "hello, you"].map fun text =>
        .obj [("content", .str text), ("role", .str "user")])), ("model", .str "family-1")]⟩
    let backend : BackendCapabilities Rat :=
      ⟨OrderedMap.empty.insert "family" ⟨some 4, some 1, some ⟨5 / 4, some 2, 1 / 10⟩⟩⟩
    let stability : StabilityAnalysisResult Rat :=
      ⟨[⟨"user-0", .stable, 1, 1, 10⟩, ⟨"user-1", .stable, 4 / 5, 1, 10⟩], 2, none, 10⟩
    ∃ annotated ir plan, decode request = .ok annotated ∧
      buildPromptIr annotated = .ok ir ∧ contentBytes ir.blocks < 2 ^ 32 ∧
      anthropicCachePlan (fun _ => 0) backend annotated ir stability 10 = some plan ∧
      plan.plannedBreakpoints.map (·.stablePrefixEnd) = [1, 2] ∧
      ∃ intents, buildAnthropicCacheIntents (fun _ => 0) backend .anthropicMessages annotated ir
          stability 10 = some intents ∧
        PlacesAll ir plan.plannedBreakpoints
          (translate (fun _ => 1) backend request ir intents).hintPlan.directives := by
  let _ := forgetful
  let _ := OpenAIChatCodec.noTexts
  intro request backend stability
  refine ⟨_, _, _, rfl, rfl, by decide +kernel, rfl, by decide +kernel, ?_⟩
  exact planned_breakpoints_placed (fun _ => 0) (fun _ => 1) backend rfl rfl (by decide +kernel)
    stability 10 rfl (by decide +kernel)

end NemoRelay.Acg
