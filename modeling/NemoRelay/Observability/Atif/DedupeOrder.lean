import NemoRelay.Observability.Atif.Correlation
import NemoRelay.Observability.Detached

/-!
# Duplicates and the order of a hash table

Which spans are suppressed does not depend on the order in which they are compared. The metrics that
are kept for a span do, if two spans that it makes superfluous report different values. And metrics
can get lost: they pass to a span that is itself suppressed.
-/

namespace NemoRelay.Observability

open Option (bind_eq_some_iff some_inj)

open EventLookupMaps

/-- An order in which an identifier comes first. -/
def firstInOrder (uuid : Uuid) : Uuid → Nat := fun other => if other = uuid then 0 else 1

theorem firstInOrder_lt {uuid other : Uuid} (h : other ≠ uuid) :
    firstInOrder uuid uuid < firstInOrder uuid other := by
  simp [firstInOrder, h]

section Spans

variable [Texts] [ObservabilityHost] [Amounts] {events : List Event} {span : LlmSpanCandidate}
  {uuid : Uuid} {order order' : Uuid → Nat}

/-! ### The spans of a list of events -/

def SpanOf (events : List Event) (span : LlmSpanCandidate) : Prop :=
  ∃ parts, (llmSpans events).get span.uuid = some parts ∧ parts.candidate span.uuid = some span

variable {parts : LlmSpanParts}

theorem candidate_eq_some (h : parts.candidate uuid = some span) :
    ∃ finish modelName, span.uuid = uuid ∧ span.endMetrics = llmEndMetrics finish modelName := by
  obtain ⟨start, -, h⟩ := bind_eq_some_iff.mp h
  obtain ⟨finish, -, h⟩ := bind_eq_some_iff.mp h
  obtain ⟨request, -, h⟩ := bind_eq_some_iff.mp h
  obtain ⟨response, -, h⟩ := bind_eq_some_iff.mp h
  cases h
  exact ⟨finish, _, rfl, rfl⟩

theorem uuid_of_candidate (h : parts.candidate uuid = some span) : span.uuid = uuid := by
  obtain ⟨-, -, huuid, -⟩ := candidate_eq_some h
  exact huuid

omit [Texts] in
theorem wf_llmEndMetrics {finish : Event} {modelName : Option String} :
    ∀ metrics, llmEndMetrics finish modelName = some metrics → metrics.WF := by
  intro metrics h
  obtain ⟨output, -, hextract⟩ := bind_eq_some_iff.mp h
  exact wf_extractMetrics hextract

theorem wf_endMetrics (h : SpanOf events span) : ∀ metrics, span.endMetrics = some metrics →
    metrics.WF := by
  obtain ⟨parts, -, h⟩ := h
  obtain ⟨finish, modelName, -, hmetrics⟩ := candidate_eq_some h
  rw [hmetrics]
  exact wf_llmEndMetrics

theorem spanOf_unique {span' : LlmSpanCandidate} (h : SpanOf events span)
    (h' : SpanOf events span') (huuid : span.uuid = span'.uuid) : span = span' := by
  obtain ⟨parts, hget, hcandidate⟩ := h
  obtain ⟨parts', hget', hcandidate'⟩ := h'
  rw [huuid, hget', some_inj] at hget
  rw [huuid, ← hget, hcandidate', some_inj] at hcandidate
  exact hcandidate.symm

theorem mem_collectLlmSpanCandidates :
    span ∈ collectLlmSpanCandidates order events ↔ SpanOf events span := by
  rw [collectLlmSpanCandidates, List.mem_filterMap]
  constructor
  · rintro ⟨⟨uuid, parts⟩, hentry, hcandidate⟩
    have huuid := uuid_of_candidate hcandidate
    rw [OrderedMap.mem_iterate] at hentry
    exact ⟨parts, huuid ▸ hentry, huuid ▸ hcandidate⟩
  · rintro ⟨parts, hget, hcandidate⟩
    refine ⟨(span.uuid, parts), ?_, hcandidate⟩
    rwa [OrderedMap.mem_iterate]

theorem collectLlmSpanCandidates_perm (order order' : Uuid → Nat) (events : List Event) :
    (collectLlmSpanCandidates order events).Perm (collectLlmSpanCandidates order' events) :=
  (((llmSpans events).iterate_perm order).trans
    ((llmSpans events).iterate_perm order').symm).filterMap _

theorem nodup_collectLlmSpanCandidates (order : Uuid → Nat) (events : List Event) :
    ((collectLlmSpanCandidates order events).map (·.uuid)).Nodup :=
  ((llmSpans events).iterate_keys_nodup order).sublist
    (SortedMap.map_filterMap_sublist (fun _ _ => uuid_of_candidate) _)

theorem collect_firstInOrder (h : SpanOf events span) :
    ∃ rest, collectLlmSpanCandidates (firstInOrder span.uuid) events = span :: rest := by
  obtain ⟨parts, hget, hcandidate⟩ := h
  obtain ⟨rest, hrest⟩ := OrderedMap.iterate_eq_cons hget fun _ => firstInOrder_lt
  refine ⟨rest.filterMap fun entry => entry.2.candidate entry.1, ?_⟩
  rw [collectLlmSpanCandidates, hrest]
  exact List.filterMap_cons_some hcandidate

/-! ### Suppressed spans -/

/-- A span of the events makes this one superfluous. -/
def Outranked (events : List Event) (uuid : Uuid) : Prop :=
  ∃ suppressed canonical, SpanOf events suppressed ∧ SpanOf events canonical ∧
    suppressed.uuid = uuid ∧ Outranks canonical suppressed

theorem mem_suppressedEvents :
    uuid ∈ (buildLlmDedupe order events).suppressedEvents ↔ Outranked events uuid := by
  rw [buildLlmDedupe, mem_suppressed_compareAll]
  simp only [LlmDedupeLookups.empty, Finset.notMem_empty, false_or, mem_collectLlmSpanCandidates]
  constructor
  · rintro ⟨suppressed, hsuppressed, rfl, canonical, hcanonical, h⟩
    exact ⟨suppressed, canonical, hsuppressed, hcanonical, rfl, h⟩
  · rintro ⟨suppressed, canonical, hsuppressed, hcanonical, rfl, h⟩
    exact ⟨suppressed, hsuppressed, rfl, canonical, hcanonical, h⟩

end Spans

/-! ### Metrics that are kept -/

open FirstWins

section Absorb

variable {canonical span : LlmSpanCandidate} {spans : List LlmSpanCandidate}
  {entry : Option AtifMetrics}

/-- The metrics of the spans that a span makes superfluous, as partial records. -/
def absorbed (canonical : LlmSpanCandidate) (spans : List LlmSpanCandidate) :
    List (MetricsField → Option MetricsValue) :=
  (spans.filter fun span => Outranks canonical span).map fun span => fieldOf? span.endMetrics

theorem mem_absorbed {fields : MetricsField → Option MetricsValue} :
    fields ∈ absorbed canonical spans ↔
      ∃ span ∈ spans, Outranks canonical span ∧ fieldOf? span.endMetrics = fields := by
  simp [absorbed, and_assoc]

theorem absorbed_cons_of_outranks (h : Outranks canonical span) :
    absorbed canonical (span :: spans) = fieldOf? span.endMetrics :: absorbed canonical spans := by
  simp [absorbed, h]

theorem absorbed_cons_of_not_outranks (h : ¬ Outranks canonical span) :
    absorbed canonical (span :: spans) = absorbed canonical spans := by
  simp [absorbed, h]

theorem wf_none : ∀ metrics, (none : Option AtifMetrics) = some metrics → metrics.WF := nofun

section

variable (hentry : ∀ metrics, entry = some metrics → metrics.WF)
include hentry

theorem wf_absorbIf (hspan : ∀ metrics, span.endMetrics = some metrics → metrics.WF) :
    ∀ metrics, absorbIf canonical entry span = some metrics → metrics.WF := by
  intro metrics h
  unfold absorbIf absorb at h
  split at h
  · split at h
    · rename_i supplemental hsupplemental
      cases h
      refine wf_mergeMetricsFields ?_ (hspan _ hsupplemental)
      cases entry with
      | none => exact AtifMetrics.wf_default
      | some target => exact hentry _ rfl
    · exact hentry _ h
  · exact hentry _ h

theorem fieldOf?_absorb (hspan : ∀ metrics, span.endMetrics = some metrics → metrics.WF) :
    fieldOf? (absorb entry span) = merge (fieldOf? entry) (fieldOf? span.endMetrics) := by
  unfold absorb
  cases hmetrics : span.endMetrics with
  | none => exact (merge_none _).symm
  | some metrics =>
    cases entry with
    | none =>
      have hfields := field_mergeMetricsFields AtifMetrics.wf_default (hspan _ hmetrics)
      rw [AtifMetrics.field_default] at hfields
      exact hfields
    | some target => exact field_mergeMetricsFields (hentry _ rfl) (hspan _ hmetrics)

theorem fieldOf?_foldl_absorbIf
    (hspans : ∀ span ∈ spans, ∀ metrics, span.endMetrics = some metrics → metrics.WF) :
    fieldOf? (spans.foldl (absorbIf canonical) entry) =
      merge (fieldOf? entry) (mergeAll (absorbed canonical spans)) := by
  induction spans generalizing entry with
  | nil => exact (merge_none _).symm
  | cons span spans ih =>
    obtain ⟨hspan, hspans⟩ := List.forall_mem_cons.mp hspans
    rw [List.foldl_cons, ih (wf_absorbIf hentry hspan) hspans]
    by_cases houtranks : Outranks canonical span
    · rw [absorbIf, if_pos houtranks, fieldOf?_absorb hentry hspan,
        absorbed_cons_of_outranks houtranks, mergeAll_cons, merge_assoc]
    · rw [absorbIf, if_neg houtranks, absorbed_cons_of_not_outranks houtranks]

theorem wf_foldl_absorbIf
    (hspans : ∀ span ∈ spans, ∀ metrics, span.endMetrics = some metrics → metrics.WF) :
    ∀ metrics, spans.foldl (absorbIf canonical) entry = some metrics → metrics.WF := by
  induction spans generalizing entry with
  | nil => exact hentry
  | cons span spans ih =>
    obtain ⟨hspan, hspans⟩ := List.forall_mem_cons.mp hspans
    exact ih (wf_absorbIf hentry hspan) hspans

end

theorem isSome_foldl_absorbIf :
    (spans.foldl (absorbIf canonical) entry).isSome ↔
      entry.isSome ∨ ∃ span ∈ spans, Outranks canonical span ∧ span.endMetrics.isSome := by
  induction spans generalizing entry with
  | nil => simp
  | cons span spans ih =>
    have hhead : (absorbIf canonical entry span).isSome ↔
        entry.isSome ∨ Outranks canonical span ∧ span.endMetrics.isSome := by
      unfold absorbIf absorb
      by_cases houtranks : Outranks canonical span
      · cases span.endMetrics <;> simp [houtranks]
      · simp [houtranks]
    rw [List.foldl_cons, ih, hhead, or_assoc]
    simp only [List.mem_cons, exists_eq_or_imp]

end Absorb

section Metrics

variable [Texts] [ObservabilityHost] [Amounts] {events : List Event}
  {canonical span : LlmSpanCandidate} {uuid : Uuid} {order order' : Uuid → Nat}

theorem get_supplementalMetrics (hcanonical : SpanOf events canonical) :
    (buildLlmDedupe order events).supplementalMetrics.get canonical.uuid =
      (collectLlmSpanCandidates order events).foldl (absorbIf canonical) none :=
  get_compareAll (nodup_collectLlmSpanCandidates order events)
    (mem_collectLlmSpanCandidates.mpr hcanonical)

theorem get_supplementalMetrics_of_not_span (h : ¬ ∃ span, SpanOf events span ∧ span.uuid = uuid) :
    (buildLlmDedupe order events).supplementalMetrics.get uuid = none := by
  refine get_compareAll_of_notMem ?_
  rw [List.mem_map]
  rintro ⟨span, hspan, huuid⟩
  exact h ⟨span, mem_collectLlmSpanCandidates.mp hspan, huuid⟩

theorem wf_collected : ∀ span ∈ collectLlmSpanCandidates order events, ∀ metrics,
    span.endMetrics = some metrics → metrics.WF :=
  fun _ hspan => wf_endMetrics (mem_collectLlmSpanCandidates.mp hspan)

theorem wf_supplementalMetrics {metrics : AtifMetrics}
    (h : (buildLlmDedupe order events).supplementalMetrics.get uuid = some metrics) :
    metrics.WF := by
  by_cases hspan : ∃ span, SpanOf events span ∧ span.uuid = uuid
  · obtain ⟨span, hspan, rfl⟩ := hspan
    rw [get_supplementalMetrics hspan] at h
    exact wf_foldl_absorbIf wf_none wf_collected _ h
  · rw [get_supplementalMetrics_of_not_span hspan] at h
    cases h

theorem fieldOf?_supplementalMetrics (hcanonical : SpanOf events canonical) :
    fieldOf? ((buildLlmDedupe order events).supplementalMetrics.get canonical.uuid) =
      mergeAll (absorbed canonical (collectLlmSpanCandidates order events)) := by
  rw [get_supplementalMetrics hcanonical, fieldOf?_foldl_absorbIf wf_none wf_collected]
  rfl

/-- A field is kept for a span if a span that it makes superfluous has it. -/
theorem isSome_supplementalMetrics {name : MetricsField} :
    (fieldOf? ((buildLlmDedupe order events).supplementalMetrics.get uuid) name).isSome ↔
      ∃ canonical span, SpanOf events canonical ∧ SpanOf events span ∧ canonical.uuid = uuid ∧
        Outranks canonical span ∧ (fieldOf? span.endMetrics name).isSome := by
  constructor
  · intro h
    by_cases hspan : ∃ span, SpanOf events span ∧ span.uuid = uuid
    · obtain ⟨canonical, hcanonical, rfl⟩ := hspan
      rw [fieldOf?_supplementalMetrics hcanonical, mergeAll_isSome] at h
      obtain ⟨fields, hfields, hname⟩ := h
      obtain ⟨span, hmem, houtranks, rfl⟩ := mem_absorbed.mp hfields
      exact ⟨canonical, span, hcanonical, mem_collectLlmSpanCandidates.mp hmem, rfl, houtranks,
        hname⟩
    · rw [get_supplementalMetrics_of_not_span hspan] at h
      cases h
  · rintro ⟨canonical, span, hcanonical, hspan, rfl, houtranks, hname⟩
    rw [fieldOf?_supplementalMetrics hcanonical, mergeAll_isSome]
    exact ⟨_, mem_absorbed.mpr ⟨span, mem_collectLlmSpanCandidates.mpr hspan, houtranks, rfl⟩,
      hname⟩

/-! ### Order -/

/-- Spans that one span makes superfluous do not contradict each other. -/
def MetricsAgree (events : List Event) : Prop :=
  ∀ canonical span span', SpanOf events canonical → SpanOf events span → SpanOf events span' →
    Outranks canonical span → Outranks canonical span' →
      FirstWins.Compatible (fieldOf? span.endMetrics) (fieldOf? span'.endMetrics)

theorem supplementalMetrics_eq_of_agree (h : MetricsAgree events) :
    (buildLlmDedupe order events).supplementalMetrics =
      (buildLlmDedupe order' events).supplementalMetrics := by
  apply OrderedMap.ext
  intro uuid
  by_cases hspan : ∃ span, SpanOf events span ∧ span.uuid = uuid
  · obtain ⟨canonical, hcanonical, rfl⟩ := hspan
    have hperm := collectLlmSpanCandidates_perm order order' events
    have hfields :
        fieldOf? ((buildLlmDedupe order events).supplementalMetrics.get canonical.uuid) =
          fieldOf? ((buildLlmDedupe order' events).supplementalMetrics.get canonical.uuid) := by
      rw [fieldOf?_supplementalMetrics hcanonical, fieldOf?_supplementalMetrics hcanonical]
      refine mergeAll_perm ((hperm.filter _).map _) ?_
      intro fields hfields fields' hfields'
      obtain ⟨span, hspan, houtranks, rfl⟩ := mem_absorbed.mp hfields
      obtain ⟨span', hspan', houtranks', rfl⟩ := mem_absorbed.mp hfields'
      exact h canonical span span' hcanonical (mem_collectLlmSpanCandidates.mp hspan)
        (mem_collectLlmSpanCandidates.mp hspan') houtranks houtranks'
    have hsome : ((buildLlmDedupe order events).supplementalMetrics.get canonical.uuid).isSome ↔
        ((buildLlmDedupe order' events).supplementalMetrics.get canonical.uuid).isSome := by
      rw [get_supplementalMetrics hcanonical, get_supplementalMetrics hcanonical,
        isSome_foldl_absorbIf, isSome_foldl_absorbIf]
      simp only [hperm.mem_iff]
    cases hget : (buildLlmDedupe order events).supplementalMetrics.get canonical.uuid with
    | none =>
      rw [hget] at hsome
      exact (Option.not_isSome_iff_eq_none.mp fun h => by simpa using hsome.mpr h).symm
    | some metrics =>
      rw [hget] at hsome hfields
      obtain ⟨metrics', hget'⟩ := Option.isSome_iff_exists.mp (hsome.mp rfl)
      rw [hget'] at hfields ⊢
      rw [AtifMetrics.ext_field (wf_supplementalMetrics hget) (wf_supplementalMetrics hget')
        hfields]
  · rw [get_supplementalMetrics_of_not_span hspan, get_supplementalMetrics_of_not_span hspan]

/-- The order makes a difference exactly if two such spans contradict each other. -/
theorem dedupe_order_iff :
    (∀ order order', buildLlmDedupe order events = buildLlmDedupe order' events) ↔
      MetricsAgree events := by
  constructor
  · intro h canonical span span' hcanonical hspan hspan' houtranks houtranks'
    obtain ⟨rest, hfirst⟩ := collect_firstInOrder hspan
    obtain ⟨rest', hfirst'⟩ := collect_firstInOrder hspan'
    have hfields := congrArg (fun lookups : LlmDedupeLookups =>
      fieldOf? (lookups.supplementalMetrics.get canonical.uuid))
      (h (firstInOrder span.uuid) (firstInOrder span'.uuid))
    simp only [fieldOf?_supplementalMetrics hcanonical, hfirst, hfirst',
      absorbed_cons_of_outranks houtranks, absorbed_cons_of_outranks houtranks'] at hfields
    exact compatible_of_mergeAll_eq hfields
  · intro h order order'
    have hsuppressed : (buildLlmDedupe order events).suppressedEvents =
        (buildLlmDedupe order' events).suppressedEvents := by
      ext uuid
      rw [mem_suppressedEvents, mem_suppressedEvents]
    exact congrArg₂ LlmDedupeLookups.mk hsuppressed (supplementalMetrics_eq_of_agree h)

/-! ### Metrics that are shown -/

/-- The metrics of the end of a span by itself. -/
def ownMetrics (events : List Event) (finish : Event) : Option AtifMetrics :=
  llmEndMetrics finish
    (((scopeFacts events).llmStartModelNames.get finish.uuid).or finish.modelName)

/-- Every metric of a superfluous span is that of a span that is shown, or of one that it makes
superfluous itself. -/
def MetricsReachShown (events : List Event) : Prop :=
  ∀ span canonical, SpanOf events span → SpanOf events canonical → Outranks canonical span →
    ∀ name, (fieldOf? span.endMetrics name).isSome →
      ∃ finish ∈ events, finish.HasSignature .finish "llm" ∧ finish.data.isSome ∧
        ¬ Outranked events finish.uuid ∧
        ((fieldOf? (ownMetrics events finish) name).isSome ∨
          ∃ shown other, SpanOf events shown ∧ SpanOf events other ∧ shown.uuid = finish.uuid ∧
            Outranks shown other ∧ (fieldOf? other.endMetrics name).isSome)

theorem isSome_stepMetrics {orders : HashOrders} {finish : Event} {name : MetricsField} :
    (fieldOf? ((fromEvents orders events).stepMetrics finish) name).isSome ↔
      (fieldOf? (ownMetrics events finish) name).isSome ∨
        ∃ shown other, SpanOf events shown ∧ SpanOf events other ∧ shown.uuid = finish.uuid ∧
          Outranks shown other ∧ (fieldOf? other.endMetrics name).isSome := by
  have hown : ∀ metrics, ownMetrics events finish = some metrics → metrics.WF := wf_llmEndMetrics
  have hstep : fieldOf? ((fromEvents orders events).stepMetrics finish) = _ :=
    fieldOf?_mergeMetrics hown fun _ => wf_supplementalMetrics
  rw [hstep, merge_isSome]
  exact or_congr Iff.rfl isSome_supplementalMetrics

/-- Deduplication is independent of the order of the hash table and keeps the metrics of every span
that it suppresses, exactly if duplicates do not contradict each other and none is the duplicate of
a suppressed span only. -/
theorem dedupe_sound_iff (events : List Event) :
    ((∀ order order', buildLlmDedupe order events = buildLlmDedupe order' events) ∧
      ∀ (orders : HashOrders) (span : LlmSpanCandidate), SpanOf events span →
        span.uuid ∈ (buildLlmDedupe orders.spans events).suppressedEvents →
          ∀ name, (fieldOf? span.endMetrics name).isSome →
            ∃ finish ∈ events, finish.HasSignature .finish "llm" ∧ finish.data.isSome ∧
              finish.uuid ∉ (buildLlmDedupe orders.spans events).suppressedEvents ∧
              (fieldOf? ((fromEvents orders events).stepMetrics finish) name).isSome) ↔
      MetricsAgree events ∧ MetricsReachShown events := by
  refine and_congr dedupe_order_iff ?_
  simp only [mem_suppressedEvents, isSome_stepMetrics]
  constructor
  · intro h span canonical hspan hcanonical houtranks
    exact h ⟨fun _ => 0, fun _ => 0⟩ span hspan ⟨span, canonical, hspan, hcanonical, rfl, houtranks⟩
  · rintro h - span hspan ⟨suppressed, canonical, hsuppressed, hcanonical, huuid, houtranks⟩
    obtain rfl := spanOf_unique hsuppressed hspan huuid
    exact h suppressed canonical hspan hcanonical houtranks

end Metrics

section Contradiction

/-- A span of one request, with the tokens that it reports. -/
def reportedSpan (uuid : Uuid) (start finish : Int) (metadata : Json)
    (usage : List (String × Json)) : List Event :=
  [llmEvent .start uuid (some 0) start (.obj [("messages", .arr [])]) (some metadata),
    llmEvent .finish uuid (some 0) finish (.obj (("content", .str "hi") :: usage)) (some metadata)]

def reportedTokens (tokens : Nat) : List (String × Json) :=
  [("token_usage", .obj [("prompt_tokens", .num (.posInt tokens))])]

/-- Two projections of one exact report contradict each other. -/
def contradictingReports : List Event :=
  reportedSpan 1 0 10 projection (reportedTokens 5) ++
    reportedSpan 2 0 10 projection (reportedTokens 7) ++ reportedSpan 3 0 10 exactPayload []

/-- A projection overlaps with an inexact report only, and that with an exact one. -/
def chainedReports : List Event :=
  reportedSpan 1 0 3 projection (reportedTokens 5) ++ reportedSpan 2 2 6 inexactPayload [] ++
    reportedSpan 3 5 9 exactPayload []

/-- Two orders keep different tokens. Of a chain of three reports the metrics of the first pass to
the second, which is suppressed as well. -/
theorem dedupe_unsound :
    letI := plainTexts
    letI := detachedHost
    letI := noAmounts
    let shown := fromEvents ⟨firstInOrder 1, fun _ => 0⟩ chainedReports
    (buildLlmDedupe (firstInOrder 1) contradictingReports).supplementalMetrics.get 3 ≠
        (buildLlmDedupe (firstInOrder 2) contradictingReports).supplementalMetrics.get 3 ∧
      (collectLlmSpanCandidates (firstInOrder 1) chainedReports).map (fun span =>
        (span.uuid, shown.suppressedLlmEvents, (fieldOf? span.endMetrics .promptTokens).isSome)) =
        [(1, {1, 2}, true), (2, {1, 2}, false), (3, {1, 2}, false)] ∧
      ∀ finish ∈ chainedReports, finish.uuid ∉ shown.suppressedLlmEvents →
        fieldOf? (shown.stepMetrics finish) .promptTokens = none := by
  decide +kernel

end Contradiction

end NemoRelay.Observability
