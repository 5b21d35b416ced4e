import NemoRelay.Lib.Grouping
import NemoRelay.Observability.Atif.Dedupe

/-!
# Tool executions and the calls that ask for them

A tool execution belongs to the call of a response that asked for it. Some executions carry the
identifier of their call. For the others it is inferred: the executions and the calls with the same
name and arguments are paired in order, if there are as many of one as of the other.

The executions are grouped in a hash table; the order of its iteration is the argument `order`.
-/

namespace NemoRelay.Observability

structure ToolCallMatchKey where
  name : String
  arguments : String
  deriving DecidableEq

namespace ToolCallMatchKey

def toPair (key : ToolCallMatchKey) : String ×ₗ String := toLex (key.name, key.arguments)

theorem toPair_injective : Function.Injective toPair := by
  rintro ⟨name, arguments⟩ ⟨name', arguments'⟩ h
  have hpair := toLex.injective h
  rw [Prod.mk.injEq] at hpair
  exact congrArg₂ mk hpair.1 hpair.2

instance : LinearOrder ToolCallMatchKey := LinearOrder.lift' toPair toPair_injective

end ToolCallMatchKey

structure ToolExecutionRecord where
  uuid : Uuid
  explicitCallId : Option String
  key : Option ToolCallMatchKey

structure LlmToolCallRecord where
  toolCallId : String
  key : Option ToolCallMatchKey

section Texts

variable [Texts]

def toolCallMatchKey (name : String) (arguments : Json) : Option ToolCallMatchKey :=
  if name = "" then none else some ⟨name, jsonToString arguments⟩

def toolExecutionMatchKey (event : Event) : Option ToolCallMatchKey :=
  event.data.bind fun data => toolCallMatchKey event.name (normalizeToolArguments (some data))

/-! ### Collection -/

structure CorrelationInputs where
  explicit : OrderedMap Uuid String
  executions : List ToolExecutionRecord
  toolCalls : List LlmToolCallRecord

def CorrelationInputs.empty : CorrelationInputs := ⟨.empty, [], []⟩

def collectExplicitToolCallId (event : Event) (explicit : OrderedMap Uuid String) :
    OrderedMap Uuid String :=
  match event.toolCallId with
  | some toolCallId => explicit.insert event.uuid toolCallId
  | none => explicit

def toolExecutionRecord (event : Event) : ToolExecutionRecord :=
  ⟨event.uuid, event.toolCallId, toolExecutionMatchKey event⟩

section Host

variable [ObservabilityHost]

def llmToolCallRecords (event : Event) : List LlmToolCallRecord :=
  ((eventToolCalls event).getD []).map fun toolCall =>
    ⟨toolCall.toolCallId, toolCallMatchKey toolCall.functionName toolCall.arguments⟩

def collectToolCorrelationEvent (inputs : CorrelationInputs) (event : Event) : CorrelationInputs :=
  if event.HasSignature .start "tool" then
    { inputs with
      explicit := collectExplicitToolCallId event inputs.explicit
      executions := inputs.executions ++ [toolExecutionRecord event] }
  else if event.HasSignature .finish "tool" then
    { inputs with explicit := collectExplicitToolCallId event inputs.explicit }
  else if event.HasSignature .finish "llm" then
    { inputs with toolCalls := inputs.toolCalls ++ llmToolCallRecords event }
  else inputs

def collectToolCorrelationInputs (events : List Event) : CorrelationInputs :=
  events.foldl collectToolCorrelationEvent .empty

end Host

end Texts

/-! ### Groups -/

/-- The identifiers that executions carry are taken. -/
def consumedToolCallIds (correlations : OrderedMap Uuid String) : List String :=
  correlations.entries.map Prod.snd

def groupUnmatchedExecutionsByKey (executions : List ToolExecutionRecord)
    (correlations : OrderedMap Uuid String) : OrderedMap ToolCallMatchKey (List Uuid) :=
  executions.foldl (fun grouped execution =>
    if correlations.contains execution.uuid then grouped
    else
      match execution.key with
      | some key => Tally.put grouped (key, execution.uuid)
      | none => grouped) .empty

def groupToolCallsByKey (toolCalls : List LlmToolCallRecord) (consumed : List String) :
    OrderedMap ToolCallMatchKey (List String) :=
  toolCalls.foldl (fun grouped toolCall =>
    if toolCall.toolCallId ∈ consumed then grouped
    else
      match toolCall.key with
      | some key => Tally.put grouped (key, toolCall.toolCallId)
      | none => grouped) .empty

def insertKeyedToolCorrelations (correlations : OrderedMap Uuid String) (uuids : List Uuid)
    (toolCallIds : List String) : OrderedMap Uuid String :=
  (uuids.zip toolCallIds).foldl (fun correlations pair => correlations.insert pair.1 pair.2)
    correlations

/-- One group of executions, if there are as many calls. -/
def applyKeyedToolCorrelation (toolCallsByKey : OrderedMap ToolCallMatchKey (List String))
    (correlations : OrderedMap Uuid String) (group : ToolCallMatchKey × List Uuid) :
    OrderedMap Uuid String :=
  match toolCallsByKey.get group.1 with
  | some toolCallIds =>
    if group.2.length = toolCallIds.length then
      insertKeyedToolCorrelations correlations group.2 toolCallIds
    else correlations
  | none => correlations

def applyKeyedToolCorrelations (order : ToolCallMatchKey → Nat)
    (correlations : OrderedMap Uuid String)
    (executionsByKey : OrderedMap ToolCallMatchKey (List Uuid))
    (toolCallsByKey : OrderedMap ToolCallMatchKey (List String)) : OrderedMap Uuid String :=
  (executionsByKey.iterate order).foldl (applyKeyedToolCorrelation toolCallsByKey) correlations

section Host

variable [Texts] [ObservabilityHost]

def buildToolCallCorrelations (order : ToolCallMatchKey → Nat) (events : List Event) :
    OrderedMap Uuid String :=
  let inputs := collectToolCorrelationInputs events
  applyKeyedToolCorrelations order inputs.explicit
    (groupUnmatchedExecutionsByKey inputs.executions inputs.explicit)
    (groupToolCallsByKey inputs.toolCalls (consumedToolCallIds inputs.explicit))

/-! ### What the conversion looks up -/

structure EventLookupMaps where
  nameMap : OrderedMap Uuid String
  startTsMap : OrderedMap Uuid Int
  llmEndUuids : Finset Uuid
  llmStartModelNames : OrderedMap Uuid String
  toolCallIds : OrderedMap Uuid String
  suppressedLlmEvents : Finset Uuid
  supplementalLlmMetrics : OrderedMap Uuid AtifMetrics

/-- The orders in which the hash tables are iterated. -/
structure HashOrders where
  spans : Uuid → Nat
  keys : ToolCallMatchKey → Nat

/-- What a list of events says of each of its scopes. -/
structure ScopeFacts where
  nameMap : OrderedMap Uuid String
  startTsMap : OrderedMap Uuid Int
  llmEndUuids : Finset Uuid
  llmStartModelNames : OrderedMap Uuid String

def addScopeFacts (facts : ScopeFacts) (event : Event) : ScopeFacts :=
  if event.isStartEvent then
    { facts with
      nameMap := facts.nameMap.insert event.uuid event.name
      startTsMap := facts.startTsMap.insert event.uuid event.timestamp
      llmStartModelNames :=
        match if event.isLlmEvent then modelNameForLlmEvent event else none with
        | some modelName => facts.llmStartModelNames.insert event.uuid modelName
        | none => facts.llmStartModelNames }
  else if event.HasSignature .finish "llm" ∧ event.data.isSome then
    { facts with llmEndUuids := insert event.uuid facts.llmEndUuids }
  else facts

def scopeFacts (events : List Event) : ScopeFacts :=
  events.foldl addScopeFacts ⟨.empty, .empty, ∅, .empty⟩

variable [Amounts]

def EventLookupMaps.fromEventsWithCorrelationEvents (orders : HashOrders)
    (events llmDedupeEvents toolCorrelationEvents : List Event) : EventLookupMaps :=
  let facts := scopeFacts events
  let llmDedupe := buildLlmDedupe orders.spans llmDedupeEvents
  { nameMap := facts.nameMap
    startTsMap := facts.startTsMap
    llmEndUuids := facts.llmEndUuids
    llmStartModelNames := facts.llmStartModelNames
    toolCallIds := buildToolCallCorrelations orders.keys toolCorrelationEvents
    suppressedLlmEvents := llmDedupe.suppressedEvents
    supplementalLlmMetrics := llmDedupe.supplementalMetrics }

def EventLookupMaps.fromEvents (orders : HashOrders) (events : List Event) : EventLookupMaps :=
  fromEventsWithCorrelationEvents orders events events events

/-- The metrics of the step that the end of an LLM span becomes. -/
def EventLookupMaps.stepMetrics (lookups : EventLookupMaps) (event : Event) : Option AtifMetrics :=
  mergeMetrics
    (llmEndMetrics event ((lookups.llmStartModelNames.get event.uuid).or event.modelName))
    (lookups.supplementalLlmMetrics.get event.uuid)

end Host

end NemoRelay.Observability
