import NemoRelay.Lib.OrderedMap
import NemoRelay.Observability.Atif.Content
import NemoRelay.Observability.Atif.Metrics

/-!
# Duplicate reports of one LLM request

A request may be reported twice, by a hook and by a gateway say. Two spans of LLM events that stand
for the same physical request are compared by their fidelity. The lower one is suppressed, and its
metrics complete those of the other.

Spans are collected in a hash table; the order of its iteration is the argument `order`.
-/

namespace NemoRelay.Observability

open List

structure LlmSpanCandidate where
  uuid : Uuid
  parentUuid : Option Uuid
  startTs : Int
  endTs : Int
  requestSignature : String
  requestCorrelationKeys : List String
  responseSignature : String
  modelName : Option String
  fidelityScore : Nat
  endMetrics : Option AtifMetrics
  hookInstrumentation : Bool
  gatewayInstrumentation : Bool
  nonExactProviderPayload : Bool

/-! ### Signatures -/

def jsonStringAt (value : Json) (path : List String) : Option String :=
  (path.foldlM Json.get value).bind Json.asStr

def requestIdPaths : List (List String) :=
  [["api_call_id"], ["apiCallId"], ["request_id"], ["requestId"], ["request", "id"],
    ["metadata", "request_id"], ["metadata", "requestId"], ["extra", "api_call_id"],
    ["extra", "apiCallId"], ["extra", "request_id"], ["extra", "requestId"],
    ["llm_correlation_request_id"]]

def generationIdPaths : List (List String) :=
  [["generation_id"], ["generationId"], ["generation", "id"], ["metadata", "generation_id"],
    ["metadata", "generationId"], ["extra", "generation_id"], ["extra", "generationId"],
    ["llm_correlation_generation_id"]]

/-- The keys of one kind; an empty value is none. -/
def correlationKeysAt (kind : String) (paths : List (List String)) (value : Json) : List String :=
  (paths.filterMap fun path => (jsonStringAt value path).filter (· ≠ "")).map fun text =>
    kind ++ ":" ++ text

def collectRequestCorrelationValues (value : Json) : List String :=
  correlationKeysAt "request" requestIdPaths value ++
    correlationKeysAt "generation" generationIdPaths value

variable (event : Event)

def collectLlmRequestCorrelationKeys : List String :=
  ((event.metadata.map collectRequestCorrelationValues).getD []) ++
    ((event.data.map fun data => collectRequestCorrelationValues data ++
      collectRequestCorrelationValues (unwrapLlmRequest data)).getD [])

def rawOpenaiResponsesInputMessage (input : Json) : Option Json := do
  let items ← input.asArray
  items.reverse.findSome? fun item =>
    if textMember item "role" = some "user" then item.get "content" else none

/-- The last message of a user that is not text only. -/
def multimodalInput (content : Json) : Option Json := do
  if (content.get "messages").isNone then
    let message ← (content.get "input").bind rawOpenaiResponsesInputMessage
    let parts ← message.asArray
    if parts.any fun part =>
      textMember part "type" ≠ some "text" && textMember part "type" ≠ some "input_text" then
      some message
    else none
  else none

section Texts

variable [Texts]

def llmRequestSignature (input : Json) : String :=
  let content := unwrapLlmRequest input
  jsonToString
    (atifContentValue ((multimodalInput content).getD (extractUserMessageContent content)))

instance : Serialize AtifToolCall where
  toValue call :=
    .ofFields [("tool_call_id", some (.str call.toolCallId)),
      ("function_name", some (.str call.functionName)), ("arguments", some call.arguments),
      ("extra", call.extra)] []

def responseSignature (message : Json) (toolCalls : Option (List AtifToolCall)) : String :=
  jsonToString (.obj [("message", message),
    ("tool_calls", (toolCalls.map fun calls => Json.arr (calls.map toValue)).getD .null)])

/-! ### Fidelity -/

def hasNonExactProviderPayload : Bool :=
  event.metadata.bind (boolMember · "provider_payload_exact") = some false

def isHookInstrumentedLlmEvent : Bool :=
  (event.metadata.bind (·.get "hook_event_name")).isSome

def isGatewayInstrumentedLlmEvent : Bool :=
  (event.metadata.bind (·.get "gateway_path")).isSome ||
    (event.metadata.bind (·.get "llm_correlation_source")).isSome

def llmEventFidelityScore : Nat :=
  match event.metadata.filter (·.isObject) with
  | none => 50
  | some metadata =>
    if boolMember metadata "projection" = some true then 10
    else if hasNonExactProviderPayload event then 30
    else if boolMember metadata "provider_payload_exact" = some true then 100
    else if (metadata.get "fidelity_source").isSome || (metadata.get "api_call_id").isSome then 95
    else if (metadata.get "hook_event_name").isSome then 90
    else 50

/-! ### Spans -/

section Host

variable [ObservabilityHost]

def eventResponseSignature : Option String :=
  event.output.map fun output =>
    match event.telemetryLlmToolCalls with
    | none => responseSignature (extractLlmResponseMessage output) (extractToolCalls output)
    | some calls => responseSignature (extractLlmResponseMessage output) (portableToolCalls calls)

def effectiveModelForPair (start finish : Event) : Option String :=
  (finish.normalizedLlmResponse.bind (·.model)).or <|
    (modelNameFromManualLlmOutput finish.output).or <|
      (start.modelName.or finish.modelName).or <|
        (modelNameForLlmEvent start).or (modelNameForLlmEvent finish)

variable [Amounts]

/-- The metrics of the end of a span, priced for a model. -/
def llmEndMetrics (finish : Event) (modelName : Option String) : Option AtifMetrics :=
  finish.data.bind fun output =>
    extractMetrics ObservabilityHost.pricingSnapshot output (some finish.name) modelName
      finish.normalizedLlmResponse

def LlmSpanCandidate.fromEvents (uuid : Uuid) (start finish : Event) : Option LlmSpanCandidate := do
  let requestSignature ← start.data.map llmRequestSignature
  let responseSignature ← eventResponseSignature finish
  return {
    uuid
    parentUuid := start.parentUuid.or finish.parentUuid
    startTs := start.timestamp
    endTs := finish.timestamp
    requestSignature
    requestCorrelationKeys :=
      collectLlmRequestCorrelationKeys start ++ collectLlmRequestCorrelationKeys finish
    responseSignature
    modelName := effectiveModelForPair start finish
    fidelityScore := max (llmEventFidelityScore start) (llmEventFidelityScore finish)
    endMetrics := llmEndMetrics finish
      ((start.modelName.or (modelNameForLlmEvent start)).or finish.modelName)
    hookInstrumentation := isHookInstrumentedLlmEvent start || isHookInstrumentedLlmEvent finish
    gatewayInstrumentation :=
      isGatewayInstrumentedLlmEvent start || isGatewayInstrumentedLlmEvent finish
    nonExactProviderPayload :=
      hasNonExactProviderPayload start || hasNonExactProviderPayload finish }

structure LlmSpanParts where
  start : Option Event
  finish : Option Event

def addSpanEvent (spans : OrderedMap Uuid LlmSpanParts) (event : Event) :
    OrderedMap Uuid LlmSpanParts :=
  if !event.isLlmEvent then spans
  else
    let parts := (spans.get event.uuid).getD ⟨none, none⟩
    spans.insert event.uuid
      (match event.scopeCategory with
      | some .start => { parts with start := some event }
      | some .finish => { parts with finish := some event }
      | none => parts)

def llmSpans (events : List Event) : OrderedMap Uuid LlmSpanParts :=
  events.foldl addSpanEvent .empty

/-- A span that has both ends. -/
def LlmSpanParts.candidate (uuid : Uuid) (parts : LlmSpanParts) : Option LlmSpanCandidate := do
  LlmSpanCandidate.fromEvents uuid (← parts.start) (← parts.finish)

def collectLlmSpanCandidates (order : Uuid → Nat) (events : List Event) : List LlmSpanCandidate :=
  ((llmSpans events).iterate order).filterMap fun entry => entry.2.candidate entry.1

end Host

end Texts

/-! ### Duplicates -/

variable (left right : LlmSpanCandidate)

def sameParent : Bool :=
  left.parentUuid.isSome && left.parentUuid = right.parentUuid

def compatibleModelNames : Bool :=
  match left.modelName, right.modelName with
  | some leftModel, some rightModel => leftModel = rightModel
  | _, _ => true

def llmSpansOverlap : Bool :=
  left.startTs ≤ right.endTs && right.startTs ≤ left.endTs

def sameLlmPayloadSignatures : Bool :=
  left.requestSignature = right.requestSignature && left.responseSignature = right.responseSignature

def sharedLlmRequestCorrelationKey : Bool :=
  left.requestCorrelationKeys.any (· ∈ right.requestCorrelationKeys)

def complementaryHookAndGatewaySpans : Bool :=
  (left.nonExactProviderPayload && left.hookInstrumentation && right.gatewayInstrumentation ||
    right.nonExactProviderPayload && right.hookInstrumentation && left.gatewayInstrumentation) &&
  (left.requestSignature = right.requestSignature || sharedLlmRequestCorrelationKey left right)

def samePhysicalLlmRequest : Bool :=
  sameParent left right && compatibleModelNames left right && llmSpansOverlap left right &&
    (sameLlmPayloadSignatures left right || complementaryHookAndGatewaySpans left right)

structure LlmDedupeLookups where
  suppressedEvents : Finset Uuid
  supplementalMetrics : OrderedMap Uuid AtifMetrics

/-- What a suppressed span adds to the metrics kept for another. -/
def absorb (entry : Option AtifMetrics) (suppressed : LlmSpanCandidate) : Option AtifMetrics :=
  match suppressed.endMetrics with
  | some metrics => some (mergeMetricsFields (entry.getD .default) metrics)
  | none => entry

def suppressLlmSpan (suppressed canonical : LlmSpanCandidate) (lookups : LlmDedupeLookups) :
    LlmDedupeLookups where
  suppressedEvents := insert suppressed.uuid lookups.suppressedEvents
  supplementalMetrics :=
    match absorb (lookups.supplementalMetrics.get canonical.uuid) suppressed with
    | some metrics => lookups.supplementalMetrics.insert canonical.uuid metrics
    | none => lookups.supplementalMetrics

def suppressLowerFidelityLlmSpan (lookups : LlmDedupeLookups) :
    LlmDedupeLookups :=
  if right.fidelityScore < left.fidelityScore then suppressLlmSpan right left lookups
  else if left.fidelityScore < right.fidelityScore then suppressLlmSpan left right lookups
  else lookups

def compareSpans (left : LlmSpanCandidate) (lookups : LlmDedupeLookups) (right : LlmSpanCandidate) :
    LlmDedupeLookups :=
  if samePhysicalLlmRequest left right then suppressLowerFidelityLlmSpan left right lookups
  else lookups

/-- Every span is compared with those after it. -/
def compareAll : List LlmSpanCandidate → LlmDedupeLookups → LlmDedupeLookups
  | [], lookups => lookups
  | left :: rest, lookups => compareAll rest (rest.foldl (compareSpans left) lookups)

def LlmDedupeLookups.empty : LlmDedupeLookups := ⟨∅, .empty⟩

def buildLlmDedupe [Texts] [ObservabilityHost] [Amounts] (order : Uuid → Nat)
    (events : List Event) : LlmDedupeLookups :=
  compareAll (collectLlmSpanCandidates order events) .empty

/-! ### The relation between spans -/

/-- One span makes another superfluous. -/
def Outranks (canonical suppressed : LlmSpanCandidate) : Prop :=
  samePhysicalLlmRequest canonical suppressed = true ∧
    suppressed.fidelityScore < canonical.fidelityScore

instance (canonical suppressed : LlmSpanCandidate) : Decidable (Outranks canonical suppressed) :=
  inferInstanceAs (Decidable (_ ∧ _))

theorem not_outranks_self (span : LlmSpanCandidate) : ¬ Outranks span span :=
  fun h => Nat.lt_irrefl _ h.2

theorem sameParent_comm : sameParent left right = sameParent right left := by
  rw [Bool.eq_iff_iff, sameParent, sameParent]
  simp only [Bool.and_eq_true, decide_eq_true_eq]
  constructor <;> exact fun ⟨hsome, heq⟩ => ⟨heq ▸ hsome, heq.symm⟩

theorem compatibleModelNames_comm :
    compatibleModelNames left right = compatibleModelNames right left := by
  unfold compatibleModelNames
  cases left.modelName <;> cases right.modelName <;> simp [eq_comm]

theorem llmSpansOverlap_comm : llmSpansOverlap left right = llmSpansOverlap right left :=
  Bool.and_comm _ _

theorem sharedLlmRequestCorrelationKey_comm :
    sharedLlmRequestCorrelationKey left right = sharedLlmRequestCorrelationKey right left := by
  rw [Bool.eq_iff_iff, sharedLlmRequestCorrelationKey, sharedLlmRequestCorrelationKey]
  simp only [any_eq_true, decide_eq_true_eq]
  exact exists_congr fun _ => and_comm

theorem samePhysicalLlmRequest_comm :
    samePhysicalLlmRequest left right = samePhysicalLlmRequest right left := by
  unfold samePhysicalLlmRequest sameLlmPayloadSignatures complementaryHookAndGatewaySpans
  rw [sameParent_comm, compatibleModelNames_comm, llmSpansOverlap_comm,
    sharedLlmRequestCorrelationKey_comm, Bool.or_comm (left.nonExactProviderPayload && _ && _)]
  simp only [eq_comm]

/-! ### One comparison -/

section Compare

variable {left right span : LlmSpanCandidate} {lookups : LlmDedupeLookups} {uuid : Uuid}

/-- What a comparison with another span adds to the metrics kept for a span. -/
def absorbIf (canonical : LlmSpanCandidate) (entry : Option AtifMetrics)
    (other : LlmSpanCandidate) : Option AtifMetrics :=
  if Outranks canonical other then absorb entry other else entry

theorem get_suppressLlmSpan (suppressed canonical : LlmSpanCandidate) (lookups : LlmDedupeLookups)
    (uuid : Uuid) :
    (suppressLlmSpan suppressed canonical lookups).supplementalMetrics.get uuid =
      if uuid = canonical.uuid then absorb (lookups.supplementalMetrics.get uuid) suppressed
      else lookups.supplementalMetrics.get uuid := by
  rw [suppressLlmSpan]
  by_cases huuid : uuid = canonical.uuid
  · subst huuid
    rw [if_pos rfl]
    cases habsorb : absorb (lookups.supplementalMetrics.get canonical.uuid) suppressed with
    | some metrics => exact OrderedMap.get_insert_self _ _ _
    | none =>
      unfold absorb at habsorb
      split at habsorb
      · cases habsorb
      · exact habsorb
  · rw [if_neg huuid]
    cases absorb (lookups.supplementalMetrics.get canonical.uuid) suppressed with
    | some metrics => exact OrderedMap.get_insert_of_ne _ _ huuid
    | none => rfl

/-- The three outcomes of a comparison. -/
theorem compareSpans_cases (left right : LlmSpanCandidate) (lookups : LlmDedupeLookups) :
    Outranks left right ∧ ¬ Outranks right left ∧
        compareSpans left lookups right = suppressLlmSpan right left lookups ∨
      Outranks right left ∧ ¬ Outranks left right ∧
        compareSpans left lookups right = suppressLlmSpan left right lookups ∨
      ¬ Outranks left right ∧ ¬ Outranks right left ∧
        compareSpans left lookups right = lookups := by
  unfold compareSpans suppressLowerFidelityLlmSpan
  by_cases hsame : samePhysicalLlmRequest left right = true
  · have hsame' : samePhysicalLlmRequest right left = true := by
      rw [samePhysicalLlmRequest_comm, hsame]
    rw [if_pos hsame]
    obtain hlt | hlt | heq : right.fidelityScore < left.fidelityScore ∨
        left.fidelityScore < right.fidelityScore ∨ left.fidelityScore = right.fidelityScore := by
      omega
    · rw [if_pos hlt]
      exact .inl ⟨⟨hsame, hlt⟩, fun h => absurd h.2 (by omega), rfl⟩
    · rw [if_neg (by omega), if_pos hlt]
      exact .inr (.inl ⟨⟨hsame', hlt⟩, fun h => absurd h.2 (by omega), rfl⟩)
    · rw [if_neg (by omega), if_neg (by omega)]
      exact .inr (.inr ⟨fun h => absurd h.2 (by omega), fun h => absurd h.2 (by omega), rfl⟩)
  · rw [if_neg hsame]
    refine .inr (.inr ⟨fun h => hsame h.1, fun h => hsame ?_, rfl⟩)
    rw [samePhysicalLlmRequest_comm, h.1]

theorem mem_suppressed_compareSpans :
    uuid ∈ (compareSpans left lookups right).suppressedEvents ↔
      uuid ∈ lookups.suppressedEvents ∨ Outranks left right ∧ uuid = right.uuid ∨
        Outranks right left ∧ uuid = left.uuid := by
  obtain ⟨h, h', heq⟩ | ⟨h, h', heq⟩ | ⟨h, h', heq⟩ := compareSpans_cases left right lookups
  · simp [heq, suppressLlmSpan, h, h', or_comm]
  · simp [heq, suppressLlmSpan, h, h', or_comm]
  · simp [heq, h, h']

theorem get_compareSpans_left (hne : left.uuid ≠ right.uuid) :
    (compareSpans left lookups right).supplementalMetrics.get left.uuid =
      absorbIf left (lookups.supplementalMetrics.get left.uuid) right := by
  obtain ⟨h, -, heq⟩ | ⟨-, h, heq⟩ | ⟨h, -, heq⟩ := compareSpans_cases left right lookups
  · rw [heq, get_suppressLlmSpan, if_pos rfl, absorbIf, if_pos h]
  · rw [heq, get_suppressLlmSpan, if_neg hne, absorbIf, if_neg h]
  · rw [heq, absorbIf, if_neg h]

theorem get_compareSpans_right (hne : left.uuid ≠ right.uuid) :
    (compareSpans left lookups right).supplementalMetrics.get right.uuid =
      absorbIf right (lookups.supplementalMetrics.get right.uuid) left := by
  obtain ⟨-, h, heq⟩ | ⟨h, -, heq⟩ | ⟨-, h, heq⟩ := compareSpans_cases left right lookups
  · rw [heq, get_suppressLlmSpan, if_neg hne.symm, absorbIf, if_neg h]
  · rw [heq, get_suppressLlmSpan, if_pos rfl, absorbIf, if_pos h]
  · rw [heq, absorbIf, if_neg h]

theorem get_compareSpans_of_ne (hleft : uuid ≠ left.uuid) (hright : uuid ≠ right.uuid) :
    (compareSpans left lookups right).supplementalMetrics.get uuid =
      lookups.supplementalMetrics.get uuid := by
  obtain ⟨-, -, heq⟩ | ⟨-, -, heq⟩ | ⟨-, -, heq⟩ := compareSpans_cases left right lookups
  · rw [heq, get_suppressLlmSpan, if_neg hleft]
  · rw [heq, get_suppressLlmSpan, if_neg hright]
  · rw [heq]

end Compare

/-! ### All comparisons -/

section CompareAll

variable {left span : LlmSpanCandidate} {rest spans : List LlmSpanCandidate}
  {lookups : LlmDedupeLookups} {uuid : Uuid}

theorem mem_suppressed_compareRest :
    uuid ∈ (rest.foldl (compareSpans left) lookups).suppressedEvents ↔
      uuid ∈ lookups.suppressedEvents ∨ ∃ right ∈ rest, Outranks left right ∧ uuid = right.uuid ∨
        Outranks right left ∧ uuid = left.uuid := by
  induction rest generalizing lookups with
  | nil => simp
  | cons right rest ih =>
    rw [foldl_cons, ih, mem_suppressed_compareSpans, or_assoc]
    simp only [mem_cons, exists_eq_or_imp]

theorem mem_suppressed_compareAll :
    uuid ∈ (compareAll spans lookups).suppressedEvents ↔
      uuid ∈ lookups.suppressedEvents ∨
        ∃ suppressed ∈ spans, uuid = suppressed.uuid ∧ ∃ canonical ∈ spans,
          Outranks canonical suppressed := by
  induction spans generalizing lookups with
  | nil => simp [compareAll]
  | cons left rest ih =>
    rw [compareAll, ih, mem_suppressed_compareRest, or_assoc]
    refine or_congr Iff.rfl ⟨?_, ?_⟩
    · rintro (⟨right, hright, ⟨h, rfl⟩ | ⟨h, rfl⟩⟩ | ⟨suppressed, hmem, rfl, canonical, hmem', h⟩)
      · exact ⟨right, .tail _ hright, rfl, left, .head _, h⟩
      · exact ⟨left, .head _, rfl, right, .tail _ hright, h⟩
      · exact ⟨suppressed, .tail _ hmem, rfl, canonical, .tail _ hmem', h⟩
    · rintro ⟨suppressed, hmem, rfl, canonical, hmem', h⟩
      obtain rfl | hrest := mem_cons.mp hmem
      · obtain rfl | hrest' := mem_cons.mp hmem'
        · exact absurd h (not_outranks_self _)
        · exact .inl ⟨canonical, hrest', .inr ⟨h, rfl⟩⟩
      · obtain rfl | hrest' := mem_cons.mp hmem'
        · exact .inl ⟨suppressed, hrest, .inl ⟨h, rfl⟩⟩
        · exact .inr ⟨suppressed, hrest, rfl, canonical, hrest', h⟩

theorem get_compareRest_left (hnew : left.uuid ∉ rest.map (·.uuid)) :
    (rest.foldl (compareSpans left) lookups).supplementalMetrics.get left.uuid =
      rest.foldl (absorbIf left) (lookups.supplementalMetrics.get left.uuid) := by
  induction rest generalizing lookups with
  | nil => rfl
  | cons right rest ih =>
    rw [map_cons, mem_cons, not_or] at hnew
    rw [foldl_cons, ih hnew.2, get_compareSpans_left hnew.1, foldl_cons]

theorem get_compareRest_of_notMem (hleft : uuid ≠ left.uuid) (hrest : uuid ∉ rest.map (·.uuid)) :
    (rest.foldl (compareSpans left) lookups).supplementalMetrics.get uuid =
      lookups.supplementalMetrics.get uuid := by
  induction rest generalizing lookups with
  | nil => rfl
  | cons right rest ih =>
    rw [map_cons, mem_cons, not_or] at hrest
    rw [foldl_cons, ih hrest.2, get_compareSpans_of_ne hleft hrest.1]

theorem get_compareRest_right (hnodup : ((left :: rest).map (·.uuid)).Nodup) (hspan : span ∈ rest) :
    (rest.foldl (compareSpans left) lookups).supplementalMetrics.get span.uuid =
      absorbIf span (lookups.supplementalMetrics.get span.uuid) left := by
  induction rest generalizing lookups with
  | nil => cases hspan
  | cons right rest ih =>
    simp only [map_cons, nodup_cons, mem_cons, not_or] at hnodup
    obtain ⟨⟨hright, hrest⟩, hright', hnodup'⟩ := hnodup
    rw [foldl_cons]
    obtain rfl | hmem := mem_cons.mp hspan
    · rw [get_compareRest_of_notMem (Ne.symm hright) hright', get_compareSpans_right hright]
    · have hspanRight : span.uuid ≠ right.uuid := by
        intro heq
        exact hright' (heq ▸ mem_map_of_mem hmem)
      have hspanLeft : span.uuid ≠ left.uuid := by
        intro heq
        exact hrest (heq ▸ mem_map_of_mem hmem)
      rw [ih (by simp [hrest, hnodup']) hmem, get_compareSpans_of_ne hspanLeft hspanRight]

theorem get_compareAll_of_notMem (hnew : uuid ∉ spans.map (·.uuid)) :
    (compareAll spans lookups).supplementalMetrics.get uuid =
      lookups.supplementalMetrics.get uuid := by
  induction spans generalizing lookups with
  | nil => rfl
  | cons left rest ih =>
    rw [map_cons, mem_cons, not_or] at hnew
    rw [compareAll, ih hnew.2, get_compareRest_of_notMem hnew.1 hnew.2]

/-- The metrics kept for a span come from the others in their order. -/
theorem get_compareAll (hnodup : (spans.map (·.uuid)).Nodup) (hspan : span ∈ spans) :
    (compareAll spans lookups).supplementalMetrics.get span.uuid =
      spans.foldl (absorbIf span) (lookups.supplementalMetrics.get span.uuid) := by
  induction spans generalizing lookups span with
  | nil => cases hspan
  | cons left rest ih =>
    have hnodup' := nodup_cons.mp hnodup
    rw [compareAll, foldl_cons]
    obtain rfl | hmem := mem_cons.mp hspan
    · rw [get_compareAll_of_notMem hnodup'.1, get_compareRest_left hnodup'.1, absorbIf,
        if_neg (not_outranks_self _)]
    · rw [ih hnodup'.2 hmem, get_compareRest_right hnodup hmem]

end CompareAll

end NemoRelay.Observability
