import NemoRelay.Observability.Atif.Correlation
import NemoRelay.Observability.Detached

/-!
# Which tool calls are inferred

The identifier of a call is inferred for an execution that carries none. The executions and the
calls of a name and arguments are counted against each other. A response that is reported twice
counts twice, so two executions can get the identifier of one call.
-/

namespace NemoRelay.Observability

open List

/-! ### Tool events -/

def Event.IsTool (event : Event) : Prop :=
  event.HasSignature .start "tool" ∨ event.HasSignature .finish "tool"

instance (event : Event) : Decidable event.IsTool := inferInstanceAs (Decidable (_ ∨ _))

theorem Event.IsTool.not_isLlmEvent {event : Event} (h : event.IsTool) : ¬ event.isLlmEvent := by
  have hcategory : event.category = some "tool" := h.elim (·.2) (·.2)
  simp [Event.isLlmEvent, hcategory]

variable (events : List Event)

/-- The identifiers that tool events carry. -/
def explicitToolCallIds : List String :=
  (events.filter (·.IsTool)).filterMap (·.toolCallId)

/-- The identifier of an execution: the last one that an event of it carries. -/
def explicitToolCallId (uuid : Uuid) : Option String :=
  ((events.filter fun event => event.IsTool ∧ event.uuid = uuid).filterMap (·.toolCallId)).getLast?

/-- The starts of executions that carry no identifier. -/
def anonymousExecutions : List Event :=
  events.filter fun event =>
    event.HasSignature .start "tool" ∧ explicitToolCallId events event.uuid = none

open Grouping Tally

section Events

variable {events : List Event} {event : Event} {uuid : Uuid}

theorem anonymous_of_mem (h : event ∈ anonymousExecutions events) :
    explicitToolCallId events event.uuid = none := by
  rw [anonymousExecutions, mem_filter, decide_eq_true_eq] at h
  exact h.2.2

theorem not_hasSignature_of_ne {scopeCategory other : ScopeCategory} {category category' : String}
    (h : event.HasSignature scopeCategory category)
    (hne : (scopeCategory, category) ≠ (other, category')) :
    ¬ event.HasSignature other category' := by
  rintro ⟨hscope, hcategory⟩
  apply hne
  rw [h.1, Option.some_inj] at hscope
  rw [h.2, Option.some_inj] at hcategory
  rw [hscope, hcategory]

theorem explicitToolCallId_append (events : List Event) (event : Event) (uuid : Uuid) :
    explicitToolCallId (events ++ [event]) uuid =
      (if event.IsTool ∧ event.uuid = uuid then event.toolCallId else none).or
        (explicitToolCallId events uuid) := by
  unfold explicitToolCallId
  by_cases hevent : event.IsTool ∧ event.uuid = uuid
  · cases h : event.toolCallId <;> simp [hevent, h]
  · simp [hevent]

theorem get_collectExplicitToolCallId (explicit : OrderedMap Uuid String) :
    (collectExplicitToolCallId event explicit).get uuid =
      (if event.uuid = uuid then event.toolCallId else none).or (explicit.get uuid) := by
  unfold collectExplicitToolCallId
  cases event.toolCallId with
  | none => simp
  | some toolCallId =>
    by_cases huuid : event.uuid = uuid
    · simp [huuid]
    · simp [huuid, OrderedMap.get_insert_of_ne _ _ (Ne.symm huuid)]

theorem exists_event_of_explicit {toolCallId : String}
    (h : explicitToolCallId events uuid = some toolCallId) :
    ∃ event ∈ events, event.uuid = uuid := by
  obtain ⟨event, hevent, -⟩ := mem_filterMap.mp (mem_of_getLast? h)
  rw [mem_filter, decide_eq_true_eq] at hevent
  exact ⟨event, hevent.1, hevent.2.2⟩

/-- The execution has one start. -/
def StartsOnce (events : List Event) (uuid : Uuid) : Prop :=
  (anonymousExecutions events).countP (·.uuid = uuid) ≤ 1

theorem StartsOnce.unique {start start' : Event} (h : StartsOnce events uuid)
    (hstart : start ∈ anonymousExecutions events) (huuid : start.uuid = uuid)
    (hstart' : start' ∈ anonymousExecutions events) (huuid' : start'.uuid = uuid) :
    start = start' := by
  rw [StartsOnce, countP_eq_length_filter] at h
  have hmem : start ∈ (anonymousExecutions events).filter (·.uuid = uuid) :=
    mem_filter.mpr ⟨hstart, decide_eq_true huuid⟩
  have hmem' : start' ∈ (anonymousExecutions events).filter (·.uuid = uuid) :=
    mem_filter.mpr ⟨hstart', decide_eq_true huuid'⟩
  obtain ⟨only, honly⟩ := length_eq_one_iff.mp (le_antisymm h (length_pos_of_mem hmem))
  rw [honly, mem_singleton] at hmem hmem'
  rw [hmem, hmem']

/-! ### Groups -/

/-- The group of an execution. -/
def executionEntry (explicit : OrderedMap Uuid String) (execution : ToolExecutionRecord) :
    Option (ToolCallMatchKey × Uuid) :=
  if explicit.contains execution.uuid then none else execution.key.map (·, execution.uuid)

/-- The group of a call. -/
def toolCallEntry (consumed : List String) (toolCall : LlmToolCallRecord) :
    Option (ToolCallMatchKey × String) :=
  if toolCall.toolCallId ∈ consumed then none else toolCall.key.map (·, toolCall.toolCallId)

theorem groupUnmatchedExecutionsByKey_eq (executions : List ToolExecutionRecord)
    (explicit : OrderedMap Uuid String) :
    groupUnmatchedExecutionsByKey executions explicit =
      group (executions.filterMap (executionEntry explicit)) := by
  rw [groupUnmatchedExecutionsByKey, group, foldl_filterMap]
  congr 1
  funext grouped execution
  unfold executionEntry
  split_ifs
  · rfl
  · cases execution.key <;> rfl

theorem groupToolCallsByKey_eq (toolCalls : List LlmToolCallRecord) (consumed : List String) :
    groupToolCallsByKey toolCalls consumed =
      group (toolCalls.filterMap (toolCallEntry consumed)) := by
  rw [groupToolCallsByKey, group, foldl_filterMap]
  congr 1
  funext grouped toolCall
  unfold toolCallEntry
  split_ifs
  · rfl
  · cases toolCall.key <;> rfl

theorem applyKeyedToolCorrelation_eq (toolCallsByKey : OrderedMap ToolCallMatchKey (List String))
    (correlations : OrderedMap Uuid String) (group : ToolCallMatchKey × List Uuid) :
    applyKeyedToolCorrelation toolCallsByKey correlations group =
      overwrite correlations (pairsOf toolCallsByKey group) := by
  unfold applyKeyedToolCorrelation pairsOf
  cases toolCallsByKey.get group.1 with
  | none => rfl
  | some toolCallIds =>
    by_cases hlength : group.2.length = toolCallIds.length
    · simp only [if_pos hlength]
      rfl
    · simp only [if_neg hlength]
      rfl

theorem applyKeyedToolCorrelations_eq (correlations : OrderedMap Uuid String)
    (executionsByKey : OrderedMap ToolCallMatchKey (List Uuid))
    (toolCallsByKey : OrderedMap ToolCallMatchKey (List String)) :
    applyKeyedToolCorrelations order correlations executionsByKey toolCallsByKey =
      overwrite correlations (pairs order executionsByKey toolCallsByKey) := by
  rw [applyKeyedToolCorrelations, overwrite, pairs, foldl_flatMap]
  congr 1
  funext correlations group
  exact applyKeyedToolCorrelation_eq toolCallsByKey correlations group

end Events

section Host

variable [Texts]

def executionsFor (key : ToolCallMatchKey) : List Uuid :=
  ((anonymousExecutions events).filter fun event => toolExecutionMatchKey event = some key).map
    (·.uuid)

variable [ObservabilityHost]

/-- The calls of all responses. -/
def proposedToolCalls : List LlmToolCallRecord :=
  (events.filter (·.HasSignature .finish "llm")).flatMap llmToolCallRecords

/-- The identifiers of calls that no execution carries. -/
def callsFor (key : ToolCallMatchKey) : List String :=
  ((proposedToolCalls events).filter fun toolCall => toolCall.key = some key ∧
    ∀ event ∈ events, explicitToolCallId events event.uuid ≠ some toolCall.toolCallId).map
    (·.toolCallId)

/-- There are as many executions as calls. -/
def Matched (key : ToolCallMatchKey) : Prop :=
  (executionsFor events key).length = (callsFor events key).length

/-- The execution gets the identifier, whatever the order of the groups. -/
def Inferred (uuid : Uuid) (toolCallId : String) : Prop :=
  Grouping.Paired (executionsFor events) (callsFor events) uuid toolCallId

def inferredToolCallIds (order : ToolCallMatchKey → Nat) (events : List Event) : List String :=
  (anonymousExecutions events).filterMap fun event =>
    (buildToolCallCorrelations order events).get event.uuid

/-! ### Collected inputs -/

section Collect

variable {events : List Event} {event : Event} {uuid : Uuid} {key : ToolCallMatchKey}
  (events : List Event)

theorem collect_append_singleton (event : Event) :
    collectToolCorrelationInputs (events ++ [event]) =
      collectToolCorrelationEvent (collectToolCorrelationInputs events) event := by
  rw [collectToolCorrelationInputs, foldl_append]
  rfl

theorem executions_collect :
    (collectToolCorrelationInputs events).executions =
      (events.filter (·.HasSignature .start "tool")).map toolExecutionRecord := by
  induction events using List.reverseRecOn with
  | nil => rfl
  | append_singleton events event ih =>
    rw [collect_append_singleton, filter_append, map_append, ← ih]
    unfold collectToolCorrelationEvent
    by_cases hstart : event.HasSignature .start "tool"
    · simp [hstart]
    · split_ifs <;> simp [hstart]

theorem toolCalls_collect :
    (collectToolCorrelationInputs events).toolCalls = proposedToolCalls events := by
  induction events using List.reverseRecOn with
  | nil => rfl
  | append_singleton events event ih =>
    rw [collect_append_singleton, proposedToolCalls, filter_append, flatMap_append,
      ← proposedToolCalls, ← ih]
    unfold collectToolCorrelationEvent
    by_cases hfinish : event.HasSignature .finish "llm"
    · have hstart : ¬ event.HasSignature .start "tool" :=
        not_hasSignature_of_ne hfinish (by decide)
      have htool : ¬ event.HasSignature .finish "tool" :=
        not_hasSignature_of_ne hfinish (by decide)
      simp [hstart, htool, hfinish]
    · split_ifs <;> simp [hfinish]

theorem get_explicit_collect (uuid : Uuid) :
    (collectToolCorrelationInputs events).explicit.get uuid = explicitToolCallId events uuid := by
  induction events using List.reverseRecOn with
  | nil => rfl
  | append_singleton events event ih =>
    rw [collect_append_singleton, explicitToolCallId_append, ← ih]
    unfold collectToolCorrelationEvent
    by_cases hstart : event.HasSignature .start "tool"
    · simp [hstart, Event.IsTool, get_collectExplicitToolCallId]
    · by_cases hfinish : event.HasSignature .finish "tool"
      · simp [hfinish, hstart, Event.IsTool, get_collectExplicitToolCallId]
      · split_ifs <;> simp_all [Event.IsTool]

theorem mem_consumed_collect {toolCallId : String} :
    toolCallId ∈ consumedToolCallIds (collectToolCorrelationInputs events).explicit ↔
      ∃ event ∈ events, explicitToolCallId events event.uuid = some toolCallId := by
  rw [consumedToolCallIds, mem_map]
  constructor
  · rintro ⟨⟨uuid, toolCallId⟩, hentry, rfl⟩
    rw [OrderedMap.mem_entries, get_explicit_collect] at hentry
    obtain ⟨event, hevent, rfl⟩ := exists_event_of_explicit hentry
    exact ⟨event, hevent, hentry⟩
  · rintro ⟨event, -, hid⟩
    refine ⟨(event.uuid, toolCallId), ?_, rfl⟩
    rw [OrderedMap.mem_entries, get_explicit_collect, hid]

theorem members_executions :
    members ((collectToolCorrelationInputs events).executions.filterMap
      (executionEntry (collectToolCorrelationInputs events).explicit)) = executionsFor events := by
  funext key
  rw [executions_collect, members, executionsFor, anonymousExecutions, filterMap_map,
    filter_filter, filter_filterMap, map_filterMap, ← filterMap_eq_map, filterMap_filter,
    filterMap_filter]
  refine filterMap_congr fun event _ => ?_
  simp only [Function.comp_apply, executionEntry, toolExecutionRecord, OrderedMap.contains,
    get_explicit_collect]
  cases explicitToolCallId events event.uuid <;> cases toolExecutionMatchKey event <;>
    by_cases hstart : event.HasSignature .start "tool" <;>
      simp [hstart, Option.filter_some, apply_ite]

theorem members_toolCalls :
    members ((collectToolCorrelationInputs events).toolCalls.filterMap
      (toolCallEntry (consumedToolCallIds (collectToolCorrelationInputs events).explicit))) =
      callsFor events := by
  funext key
  rw [toolCalls_collect, members, callsFor, filter_filterMap, map_filterMap, ← filterMap_eq_map,
    filterMap_filter]
  refine filterMap_congr fun toolCall _ => ?_
  simp only [toolCallEntry, mem_consumed_collect]
  by_cases htaken : ∃ event ∈ events,
      explicitToolCallId events event.uuid = some toolCall.toolCallId
  · simp [htaken]
  · rw [if_neg htaken]
    push Not at htaken
    simp only [eq_true htaken]
    cases toolCall.key <;> simp [Option.filter_some, apply_ite]

end Collect

/-! ### Inferred identifiers -/

section Build

variable {events : List Event} {order : ToolCallMatchKey → Nat} {uuid : Uuid} {toolCallId : String}
  {key : ToolCallMatchKey}

theorem exists_overwrite (order : ToolCallMatchKey → Nat) (events : List Event) :
    ∃ pairs, buildToolCallCorrelations order events =
        overwrite (collectToolCorrelationInputs events).explicit pairs ∧
      ∀ uuid toolCallId, (uuid, toolCallId) ∈ pairs ↔ Inferred events uuid toolCallId := by
  refine ⟨_, applyKeyedToolCorrelations_eq _ _ _, fun uuid toolCallId => ?_⟩
  rw [groupUnmatchedExecutionsByKey_eq, groupToolCallsByKey_eq, mem_pairs,
    members_executions, members_toolCalls]
  rfl

theorem get_build_of_inferred (order : ToolCallMatchKey → Nat)
    (h : Inferred events uuid toolCallId) :
    ∃ toolCallId', (buildToolCallCorrelations order events).get uuid = some toolCallId' ∧
      Inferred events uuid toolCallId' := by
  obtain ⟨pairs, hbuild, hpairs⟩ := exists_overwrite order events
  rw [hbuild]
  obtain ⟨toolCallId', hget, hmem⟩ := get_overwrite_of_mem ((hpairs _ _).mpr h)
  exact ⟨toolCallId', hget, (hpairs _ _).mp hmem⟩

theorem get_build_of_not_inferred (h : ∀ toolCallId, ¬ Inferred events uuid toolCallId) :
    (buildToolCallCorrelations order events).get uuid = explicitToolCallId events uuid := by
  obtain ⟨pairs, hbuild, hpairs⟩ := exists_overwrite order events
  rw [hbuild, ← get_explicit_collect]
  exact get_overwrite_of_notMem fun toolCallId hmem =>
    h toolCallId ((hpairs _ _).mp hmem)

/-- What is not explicit is inferred. -/
theorem inferred_of_get_build (hanonymous : explicitToolCallId events uuid = none)
    (h : (buildToolCallCorrelations order events).get uuid = some toolCallId) :
    Inferred events uuid toolCallId := by
  by_cases hinferred : ∃ toolCallId, Inferred events uuid toolCallId
  · obtain ⟨other, hother⟩ := hinferred
    obtain ⟨found, hget, hfound⟩ := get_build_of_inferred order hother
    rw [h, Option.some_inj] at hget
    exact hget ▸ hfound
  · rw [get_build_of_not_inferred fun toolCallId hid => hinferred ⟨toolCallId, hid⟩,
      hanonymous] at h
    cases h

omit [ObservabilityHost] in
theorem mem_executionsFor : uuid ∈ executionsFor events key ↔
    ∃ event ∈ anonymousExecutions events, toolExecutionMatchKey event = some key ∧
      event.uuid = uuid := by
  simp [executionsFor, and_assoc]

theorem Inferred.anonymous (h : Inferred events uuid toolCallId) :
    explicitToolCallId events uuid = none := by
  obtain ⟨key, -, hmem⟩ := h
  obtain ⟨event, hevent, -, rfl⟩ := mem_executionsFor.mp (of_mem_zip hmem).1
  exact anonymous_of_mem hevent

theorem exists_inferred_of_mem (h : toolCallId ∈ inferredToolCallIds order events) :
    ∃ uuid, Inferred events uuid toolCallId := by
  obtain ⟨event, hevent, hget⟩ := mem_filterMap.mp h
  exact ⟨event.uuid, inferred_of_get_build (anonymous_of_mem hevent) hget⟩

omit [ObservabilityHost] in
theorem nodup_executionsFor (h : ∀ uuid ∈ executionsFor events key, StartsOnce events uuid) :
    (executionsFor events key).Nodup := by
  rw [nodup_iff_count_le_one]
  intro uuid
  by_cases hmem : uuid ∈ executionsFor events key
  · refine le_trans ?_ (h uuid hmem)
    rw [executionsFor, List.count, countP_map]
    refine le_trans (List.filter_sublist.countP_le) (countP_mono_left ?_)
    intro event _ huuid
    simpa using huuid
  · rw [count_eq_zero_of_not_mem hmem]
    exact Nat.zero_le 1

omit [ObservabilityHost] in
theorem StartsOnce.key_unique {key' : ToolCallMatchKey} (h : StartsOnce events uuid)
    (hmem : uuid ∈ executionsFor events key) (hmem' : uuid ∈ executionsFor events key') :
    key = key' := by
  obtain ⟨start, hstart, hkey, huuid⟩ := mem_executionsFor.mp hmem
  obtain ⟨start', hstart', hkey', huuid'⟩ := mem_executionsFor.mp hmem'
  rw [h.unique hstart huuid hstart' huuid', hkey', Option.some_inj] at hkey
  exact hkey.symm

/-- Executions that start once get the calls of their key in order. -/
theorem filterMap_get_build (order : ToolCallMatchKey → Nat) (hmatched : Matched events key)
    (honce : ∀ uuid ∈ executionsFor events key, StartsOnce events uuid) :
    (executionsFor events key).filterMap (buildToolCallCorrelations order events).get =
      callsFor events key := by
  refine filterMap_eq_of_zip hmatched fun uuid toolCallId hpair => ?_
  have hinferred : Inferred events uuid toolCallId := ⟨key, hmatched, hpair⟩
  obtain ⟨found, hget, key', -, hfound⟩ := get_build_of_inferred order hinferred
  have hmem := (of_mem_zip hpair).1
  obtain rfl := (honce uuid hmem).key_unique hmem (of_mem_zip hfound).1
  rw [hget, zip_right_unique (nodup_executionsFor honce) hfound hpair]

/-- Of a key that is matched every execution gets a call. -/
theorem exists_inferred (hmatched : Matched events key) (hmem : uuid ∈ executionsFor events key) :
    ∃ toolCallId, Inferred events uuid toolCallId := by
  obtain ⟨i, hi⟩ := mem_iff_getElem?.mp hmem
  have hlt : i < (callsFor events key).length :=
    hmatched ▸ (List.getElem?_eq_some_iff.mp hi).1
  exact ⟨(callsFor events key)[i], key, hmatched, mem_zip_iff.mpr ⟨i, hi, getElem?_eq_getElem hlt⟩⟩

end Build

/-! ### Soundness -/

section Sound

variable [Amounts] {events : List Event}

/-- The list without the reports that deduplication suppresses. -/
def withoutSuppressed (order : Uuid → Nat) (events : List Event) : List Event :=
  events.filter fun event =>
    ¬ (event.isLlmEvent ∧ event.uuid ∈ (buildLlmDedupe order events).suppressedEvents)

/-- As many calls as executions only where that means something: the calls are distinct, nobody
carries them, and none is counted for a suppressed report. -/
structure InferenceSound (order : Uuid → Nat) (events : List Event) : Prop where
  startsOnce : ∀ key, Matched events key → ∀ uuid ∈ executionsFor events key, StartsOnce events uuid
  nodup : ∀ key, Matched events key → (callsFor events key).Nodup
  disjoint : ∀ key key', Matched events key → Matched events key' → key ≠ key' →
    ∀ toolCallId ∈ callsFor events key, toolCallId ∉ callsFor events key'
  fresh : ∀ key, Matched events key →
    ∀ toolCallId ∈ callsFor events key, toolCallId ∉ explicitToolCallIds events
  unrepeated : ∀ key, executionsFor events key ≠ [] →
    callsFor (withoutSuppressed order events) key = callsFor events key ∨
      ¬ Matched events key ∧ (executionsFor events key).length ≠
        (callsFor (withoutSuppressed order events) key).length

/-! #### Removing reports -/

section Removed

variable {order : Uuid → Nat}

theorem explicitToolCallId_withoutSuppressed (uuid : Uuid) :
    explicitToolCallId (withoutSuppressed order events) uuid = explicitToolCallId events uuid := by
  unfold explicitToolCallId withoutSuppressed
  rw [filter_filter]
  congr 2
  refine filter_congr fun event _ => ?_
  by_cases htool : event.IsTool
  · simp [htool.not_isLlmEvent]
  · simp [htool]

theorem anonymousExecutions_withoutSuppressed :
    anonymousExecutions (withoutSuppressed order events) = anonymousExecutions events := by
  unfold anonymousExecutions
  simp only [explicitToolCallId_withoutSuppressed]
  rw [withoutSuppressed, filter_filter]
  refine filter_congr fun event _ => ?_
  by_cases hstart : event.HasSignature .start "tool"
  · have htool : event.IsTool := .inl hstart
    simp [htool.not_isLlmEvent]
  · simp [hstart]

theorem executionsFor_withoutSuppressed (key : ToolCallMatchKey) :
    executionsFor (withoutSuppressed order events) key = executionsFor events key := by
  rw [executionsFor, anonymousExecutions_withoutSuppressed, executionsFor]

theorem startsOnce_withoutSuppressed {uuid : Uuid} :
    StartsOnce (withoutSuppressed order events) uuid ↔ StartsOnce events uuid := by
  rw [StartsOnce, anonymousExecutions_withoutSuppressed, StartsOnce]

theorem inferred_withoutSuppressed (h : InferenceSound order events) {uuid : Uuid}
    {toolCallId : String} :
    Inferred (withoutSuppressed order events) uuid toolCallId ↔
      Inferred events uuid toolCallId := by
  refine exists_congr fun key => ?_
  rw [executionsFor_withoutSuppressed]
  by_cases hne : executionsFor events key = []
  · simp [hne]
  · obtain hcalls | ⟨hunmatched, hunmatched'⟩ := h.unrepeated key hne
    · rw [hcalls]
    · exact iff_of_false (fun hpair => hunmatched' hpair.1) fun hpair => hunmatched hpair.1

end Removed

/-! #### Sufficiency -/

section Sufficient

variable {order : Uuid → Nat} {keyOrder keyOrder' : ToolCallMatchKey → Nat} {uuid uuid' : Uuid}
  {toolCallId toolCallId' : String}

section

variable (h : InferenceSound order events)
include h

theorem InferenceSound.inferred_unique (hinferred : Inferred events uuid toolCallId)
    (hinferred' : Inferred events uuid toolCallId') : toolCallId = toolCallId' := by
  obtain ⟨key, hmatched, hpair⟩ := hinferred
  obtain ⟨key', -, hpair'⟩ := hinferred'
  have honce := h.startsOnce key hmatched
  have hmem := (of_mem_zip hpair).1
  obtain rfl := (honce uuid hmem).key_unique hmem (of_mem_zip hpair').1
  exact zip_right_unique (nodup_executionsFor honce) hpair hpair'

theorem InferenceSound.execution_unique (hinferred : Inferred events uuid toolCallId)
    (hinferred' : Inferred events uuid' toolCallId) : uuid = uuid' := by
  obtain ⟨key, hmatched, hpair⟩ := hinferred
  obtain ⟨key', hmatched', hpair'⟩ := hinferred'
  by_cases hkey : key = key'
  · subst hkey
    exact zip_left_unique (h.nodup key hmatched) hpair hpair'
  · exact absurd (of_mem_zip hpair').2
      (h.disjoint key key' hmatched hmatched' hkey _ (of_mem_zip hpair).2)

theorem InferenceSound.nodup_inferred : (inferredToolCallIds keyOrder events).Nodup := by
  refine nodup_iff_count_le_one.mpr fun toolCallId => ?_
  by_cases hmem : toolCallId ∈ inferredToolCallIds keyOrder events
  · obtain ⟨uuid, hinferred⟩ := exists_inferred_of_mem hmem
    obtain ⟨key, hmatched, hpair⟩ := id hinferred
    -- all starts that get the identifier are of one execution
    refine le_trans ?_ (h.startsOnce key hmatched uuid (of_mem_zip hpair).1)
    rw [inferredToolCallIds, List.count, countP_filterMap]
    refine countP_mono_left fun event hevent hget => decide_eq_true ?_
    exact h.execution_unique (inferred_of_get_build (anonymous_of_mem hevent)
      (by simpa [Option.getD_eq_iff] using hget)) hinferred
  · rw [count_eq_zero_of_not_mem hmem]
    exact Nat.zero_le 1

theorem InferenceSound.unchanged :
    buildToolCallCorrelations keyOrder' (withoutSuppressed order events) =
      buildToolCallCorrelations keyOrder events := by
  apply OrderedMap.ext
  intro uuid
  by_cases hinferred : ∃ toolCallId, Inferred events uuid toolCallId
  · obtain ⟨toolCallId, hinferred⟩ := hinferred
    obtain ⟨found, hget, hfound⟩ := get_build_of_inferred keyOrder hinferred
    obtain ⟨found', hget', hfound'⟩ := get_build_of_inferred keyOrder'
      ((inferred_withoutSuppressed h).mpr hinferred)
    rw [hget, hget', h.inferred_unique ((inferred_withoutSuppressed h).mp hfound') hfound]
  · have hnone : ∀ toolCallId, ¬ Inferred events uuid toolCallId :=
      fun toolCallId hid => hinferred ⟨toolCallId, hid⟩
    have hnone' : ∀ toolCallId, ¬ Inferred (withoutSuppressed order events) uuid toolCallId :=
      fun toolCallId hid => hinferred ⟨toolCallId, (inferred_withoutSuppressed h).mp hid⟩
    rw [get_build_of_not_inferred hnone, get_build_of_not_inferred hnone',
      explicitToolCallId_withoutSuppressed]

end

end Sufficient

/-! #### Necessity -/

section Necessary

variable {order : Uuid → Nat} {keyOrder : ToolCallMatchKey → Nat} {key : ToolCallMatchKey}
  {uuid : Uuid}

section

variable (h : (inferredToolCallIds keyOrder events).Nodup)
include h

omit [Amounts] in
theorem startsOnce_of_nodup (hmatched : Matched events key)
    (hmem : uuid ∈ executionsFor events key) : StartsOnce events uuid := by
  obtain ⟨toolCallId, hinferred⟩ := exists_inferred hmatched hmem
  obtain ⟨found, hget, -⟩ := get_build_of_inferred keyOrder hinferred
  -- every start of the execution gets the same identifier
  refine le_trans ?_ (nodup_iff_count_le_one.mp h found)
  rw [inferredToolCallIds, List.count, countP_filterMap]
  refine countP_mono_left fun event _ huuid => ?_
  rw [of_decide_eq_true huuid, hget]
  simp

omit [Amounts] in
theorem callsFor_sublist_inferred (hmatched : Matched events key) :
    (callsFor events key).Sublist (inferredToolCallIds keyOrder events) := by
  rw [← filterMap_get_build keyOrder hmatched fun uuid => startsOnce_of_nodup h hmatched,
    executionsFor, filterMap_map]
  exact List.filter_sublist.filterMap _

omit [Amounts] in
theorem disjoint_of_nodup {key' : ToolCallMatchKey} {toolCallId : String}
    (hmatched : Matched events key) (hmatched' : Matched events key')
    (hid : toolCallId ∈ callsFor events key) (hid' : toolCallId ∈ callsFor events key') :
    key = key' := by
  have hstart : ∀ key, Matched events key → toolCallId ∈ callsFor events key →
      ∃ start ∈ anonymousExecutions events, toolExecutionMatchKey start = some key ∧
        (buildToolCallCorrelations keyOrder events).get start.uuid = some toolCallId := by
    intro key hmatched hid
    rw [← filterMap_get_build keyOrder hmatched fun uuid => startsOnce_of_nodup h hmatched,
      mem_filterMap] at hid
    obtain ⟨uuid, hmem, hget⟩ := hid
    obtain ⟨start, hstart, hkey, rfl⟩ := mem_executionsFor.mp hmem
    exact ⟨start, hstart, hkey, hget⟩
  obtain ⟨start, hmem, hkey, hget⟩ := hstart key hmatched hid
  obtain ⟨start', hmem', hkey', hget'⟩ := hstart key' hmatched' hid'
  rw [eq_of_nodup_filterMap h hmem hmem' hget hget', hkey', Option.some_inj] at hkey
  exact hkey.symm

theorem unrepeated_of_unchanged
    (hunchanged : buildToolCallCorrelations keyOrder (withoutSuppressed order events) =
      buildToolCallCorrelations keyOrder events) (hne : executionsFor events key ≠ []) :
    callsFor (withoutSuppressed order events) key = callsFor events key ∨
      ¬ Matched events key ∧ (executionsFor events key).length ≠
        (callsFor (withoutSuppressed order events) key).length := by
  obtain ⟨uuid, hmem⟩ := exists_mem_of_ne_nil _ hne
  by_cases hmatched : Matched events key
  · left
    have honce : ∀ uuid ∈ executionsFor events key, StartsOnce events uuid :=
      fun _ => startsOnce_of_nodup h hmatched
    -- the execution keeps its call, which is one of its only key
    obtain ⟨toolCallId, hinferred⟩ := exists_inferred hmatched hmem
    obtain ⟨found, hget, -⟩ := get_build_of_inferred keyOrder hinferred
    rw [← hunchanged] at hget
    have hanonymous : explicitToolCallId (withoutSuppressed order events) uuid = none := by
      rw [explicitToolCallId_withoutSuppressed]
      exact hinferred.anonymous
    obtain ⟨key', hmatched', hpair⟩ := inferred_of_get_build hanonymous hget
    have hmem' := (of_mem_zip hpair).1
    rw [executionsFor_withoutSuppressed] at hmem'
    obtain rfl := (honce uuid hmem).key_unique hmem hmem'
    have hcalls := filterMap_get_build keyOrder hmatched' fun uuid hmem =>
      startsOnce_withoutSuppressed.mpr (honce uuid (executionsFor_withoutSuppressed key ▸ hmem))
    rw [← hcalls, hunchanged, executionsFor_withoutSuppressed,
      filterMap_get_build keyOrder hmatched honce]
  · refine .inr ⟨hmatched, fun hlength => hmatched ?_⟩
    rw [← executionsFor_withoutSuppressed] at hlength
    obtain ⟨toolCallId, hinferred⟩ := exists_inferred hlength
      ((executionsFor_withoutSuppressed key).symm ▸ hmem)
    obtain ⟨found, hget, -⟩ := get_build_of_inferred keyOrder hinferred
    have hanonymous := hinferred.anonymous
    rw [explicitToolCallId_withoutSuppressed] at hanonymous
    rw [hunchanged] at hget
    obtain ⟨key', hmatched', hpair⟩ := inferred_of_get_build hanonymous hget
    have hmem' := (of_mem_zip hpair).1
    obtain rfl := (startsOnce_of_nodup h hmatched' hmem').key_unique hmem hmem'
    exact hmatched'

end

end Necessary

/-- Inferred identifiers are distinct, differ from all explicit ones and do not change when
suppressed reports are removed, exactly if the counts mean what they are taken to mean. -/
theorem inference_sound_iff (orders : HashOrders) (events : List Event) :
    ((inferredToolCallIds orders.keys events).Nodup ∧
      (∀ toolCallId ∈ inferredToolCallIds orders.keys events,
        toolCallId ∉ explicitToolCallIds events) ∧
      ∀ keyOrder, buildToolCallCorrelations keyOrder (withoutSuppressed orders.spans events) =
        buildToolCallCorrelations orders.keys events) ↔ InferenceSound orders.spans events := by
  constructor
  · rintro ⟨hnodup, hfresh, hunchanged⟩
    refine ⟨?_, ?_, ?_, ?_, ?_⟩
    · exact fun key hmatched uuid => startsOnce_of_nodup hnodup hmatched
    · exact fun key hmatched => hnodup.sublist (callsFor_sublist_inferred hnodup hmatched)
    · exact fun key key' hmatched hmatched' hkey toolCallId hid hid' =>
        hkey (disjoint_of_nodup hnodup hmatched hmatched' hid hid')
    · exact fun key hmatched toolCallId hid =>
        hfresh toolCallId ((callsFor_sublist_inferred hnodup hmatched).subset hid)
    · exact fun key => unrepeated_of_unchanged hnodup (hunchanged orders.keys)
  · intro h
    refine ⟨h.nodup_inferred, ?_, fun _ => h.unchanged⟩
    intro toolCallId hid
    obtain ⟨uuid, key, hmatched, hpair⟩ := exists_inferred_of_mem hid
    exact h.fresh key hmatched toolCallId (of_mem_zip hpair).2

end Sound

end Host

/-- A response that asks for one call. -/
def searchResponse : Json :=
  .obj [("content", .str ""), ("tool_calls", .arr [.obj [("arguments", .obj []), ("id", .str "c1"),
    ("name", .str "search")]])]

/-- One response that is reported twice, and two executions of what it asks for. -/
def repeatedReport : List Event :=
  [llmEvent .start 1 (some 0) 0 (.obj [("messages", .arr [])]) (some projection),
    llmEvent .start 2 (some 0) 0 (.obj [("messages", .arr [])]) (some exactPayload),
    llmEvent .finish 1 (some 0) 1 searchResponse (some projection),
    llmEvent .finish 2 (some 0) 1 searchResponse (some exactPayload),
    toolEvent .start 3 2 "search" (.obj []) none, toolEvent .start 4 3 "search" (.obj []) none]

/-- Both executions get the identifier of the one call; without the suppressed report neither
does. -/
theorem repeatedReport_inferred_twice :
    letI := plainTexts
    letI := detachedHost
    letI := noAmounts
    inferredToolCallIds (fun _ => 0) repeatedReport = ["c1", "c1"] ∧
      1 ∈ (buildLlmDedupe (fun _ => 0) repeatedReport).suppressedEvents ∧
      inferredToolCallIds (fun _ => 0) (withoutSuppressed (fun _ => 0) repeatedReport) = [] := by
  decide +kernel

end NemoRelay.Observability
