import NemoRelay.Adaptive.Records
import NemoRelay.Lib.Pairing
import NemoRelay.Runtime.ScopeStack

/-!
# Accumulating runs

Scope events are collected into run records. The scope of an agent opens a run and closes it. LLM
and tool scopes below it, at any depth, become calls of the run.
-/

namespace NemoRelay.Adaptive

inductive ScopeCategory
  | start
  | finish
  deriving DecidableEq

/-- The part of `Event` that the accumulator reads. Marks have no scope category. -/
structure Event where
  uuid : Uuid
  parentUuid : Option Uuid
  name : String
  timestamp : Int
  scopeCategory : Option ScopeCategory
  category : Option String
  annotatedRequest : Option AnnotatedLlmRequest
  annotatedResponse : Option AnnotatedLlmResponse

/-- `EventCategory::to_scope_type`. -/
def toScopeType (category : String) : ScopeType :=
  match category with
  | "agent" => .agent
  | "function" => .function
  | "tool" => .tool
  | "llm" => .llm
  | "retriever" => .retriever
  | "embedder" => .embedder
  | "reranker" => .reranker
  | "guardrail" => .guardrail
  | "evaluator" => .evaluator
  | "custom" => .custom
  | _ => .unknown

variable (event : Event)

def Event.scopeType : Option ScopeType := event.category.map toScopeType

/-! ### Call records -/

/-- A call that has just started. -/
def startedCall (kind : CallKind) (annotatedRequest : Option AnnotatedLlmRequest) (event : Event) :
    CallRecord where
  kind := kind
  name := event.name
  startedAt := event.timestamp
  endedAt := none
  outputTokens := none
  promptTokens := none
  totalTokens := none
  modelName := none
  toolCallCount := none
  annotatedRequest := annotatedRequest
  annotatedResponse := none

def eventToCallRecord : Option CallRecord :=
  if event.scopeCategory ≠ some .start then none
  else match event.category with
    | some "llm" => some (startedCall .llm event.annotatedRequest event)
    | some "tool" => some (startedCall .tool none event)
    | _ => none

def isRunBoundary : Bool :=
  event.scopeType = some .agent && event.scopeCategory.isSome

/-- `tokens as u32`. -/
def asU32 (tokens : Nat) : BitVec 32 := BitVec.ofNat 32 tokens

def applyLlmEndMetadata (call : CallRecord) (event : Event) : CallRecord :=
  if event.category ≠ some "llm" then call
  else
    let call := { call with annotatedResponse := event.annotatedResponse }
    match event.annotatedResponse with
    | none => call
    | some annotated =>
      let call := match annotated.usage with
        | some usage =>
          { call with
            outputTokens := usage.completionTokens.map asU32
            promptTokens := usage.promptTokens.map asU32
            totalTokens := usage.totalTokens.map asU32 }
        | none => call
      { call with
        modelName := annotated.model
        toolCallCount := annotated.toolCalls.map fun calls => asU32 calls.length }

/-- An end closes a call. -/
def closeCall (call : CallRecord) : CallRecord :=
  applyLlmEndMetadata { call with endedAt := some event.timestamp } event

/-- An end closes the last open call with its name. -/
def closeOpenCall (calls : List CallRecord) : List CallRecord :=
  modifyLast (fun call => call.name = event.name && call.endedAt.isNone) (closeCall event) calls

/-! ### The accumulator -/

structure RunAccumulator where
  agentId : String
  openRuns : Uuid → Option RunRecord
  eventRoots : Uuid → Option Uuid

namespace RunAccumulator

def new (agentId : String) : RunAccumulator := ⟨agentId, fun _ => none, fun _ => none⟩

variable (accumulator : RunAccumulator)

def setRoot (uuid : Uuid) (root : Option Uuid) : RunAccumulator :=
  { accumulator with eventRoots := Function.update accumulator.eventRoots uuid root }

def setRun (root : Uuid) (run : Option RunRecord) : RunAccumulator :=
  { accumulator with openRuns := Function.update accumulator.openRuns root run }

variable (event : Event)

def inferRootUuid : Option Uuid :=
  (accumulator.eventRoots event.uuid).or (event.parentUuid.bind accumulator.eventRoots)

/-- `runId` is the identifier that is generated for the run. -/
def startRun (runId : Uuid) (event : Event) : RunAccumulator :=
  (accumulator.setRoot event.uuid (some event.uuid)).setRun event.uuid
    (some ⟨runId, accumulator.agentId, [], event.timestamp, none⟩)

def finishRun : RunAccumulator × Option RunRecord :=
  let root := (accumulator.eventRoots event.uuid).getD event.uuid
  ((accumulator.setRoot event.uuid none).setRun root none,
    (accumulator.openRuns root).map fun run => { run with endedAt := some event.timestamp })

def trackNestedScopeStart (scopeType : ScopeType) : RunAccumulator :=
  if scopeType = .agent then accumulator
  else match accumulator.inferRootUuid event with
    | some root => accumulator.setRoot event.uuid (some root)
    | none => accumulator

def trackNestedScopeEnd (scopeType : ScopeType) : RunAccumulator :=
  if scopeType = .agent then accumulator else accumulator.setRoot event.uuid none

def trackCallStart : RunAccumulator :=
  match accumulator.inferRootUuid event with
  | none => accumulator
  | some root =>
    let accumulator := accumulator.setRoot event.uuid (some root)
    match eventToCallRecord event, accumulator.openRuns root with
    | some record, some run =>
      accumulator.setRun root (some { run with calls := run.calls ++ [record] })
    | _, _ => accumulator

def trackCallEnd : RunAccumulator :=
  match accumulator.inferRootUuid event with
  | none => accumulator
  | some root =>
    let accumulator := match accumulator.openRuns root with
      | some run =>
        accumulator.setRun root (some { run with calls := closeOpenCall event run.calls })
      | none => accumulator
    accumulator.setRoot event.uuid none

def processEvent (runId : Uuid) (event : Event) : RunAccumulator × Option RunRecord :=
  if isRunBoundary event then
    if event.scopeCategory = some .start then (accumulator.startRun runId event, none)
    else accumulator.finishRun event
  else match event.scopeCategory, event.scopeType with
    | some .start, some .tool | some .start, some .llm => (accumulator.trackCallStart event, none)
    | some .finish, some .tool | some .finish, some .llm => (accumulator.trackCallEnd event, none)
    | some .start, some scopeType => (accumulator.trackNestedScopeStart event scopeType, none)
    | some .finish, some scopeType => (accumulator.trackNestedScopeEnd event scopeType, none)
    | _, _ => (accumulator, none)

/-- The events in order, and the runs that they complete. -/
def processEvents (runIds : Event → Uuid) :
    RunAccumulator → List Event → RunAccumulator × List RunRecord
  | accumulator, [] => (accumulator, [])
  | accumulator, event :: events =>
    let result := accumulator.processEvent (runIds event) event
    let rest := processEvents runIds result.1 events
    (rest.1, result.2.toList ++ rest.2)

end RunAccumulator

end NemoRelay.Adaptive
