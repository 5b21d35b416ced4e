import NemoRelay.Adaptive.Records
import NemoRelay.Adaptive.Trie.Accumulator

/-!
# The contexts of the calls of a run

What the prediction trie learns from a run: one context for each completed LLM call, with the number
of the call among the calls of its name. Instants are in nanoseconds.

The sensitivity of a call is a weighted sum of four signals, normalised over the run. Calls that
overlap in time share a logical position.
-/

namespace NemoRelay.Adaptive

open List

open Arithmetic (ofInt)

/-- Sensitivities are numbers from one to the scale. -/
structure SensitivityConfig (F : Type) where
  sensitivityScale : Nat
  scale_pos : 1 ≤ sensitivityScale
  wCritical : F
  wFanout : F
  wPosition : F
  wParallel : F

structure LlmCallContext (F : Type) where
  path : List String
  callIndex : Nat
  remainingCalls : Nat
  timeToNextMs : Option F
  outputTokens : BitVec 32
  callDurationS : F
  workflowDurationS : F
  parallelSlackRatio : F
  sensitivityScore : F
  spanStartTime : F
  spanEndTime : F

/-- `TimeDelta::num_milliseconds` -/
def numMilliseconds (duration : Int) : Int := duration.tdiv 1000000

/-- `DateTime::timestamp` -/
def timestamp (instant : Int) : Int := instant / 1000000000

section Contexts

variable {F : Type} [Arithmetic F]

def seconds (duration : Int) : F := ofInt (numMilliseconds duration) / ofInt 1000

variable (run : RunRecord)

/-- Without an end of the run, the last end of a call counts. -/
def workflowDurationS : F :=
  match run.endedAt with
  | some endedAt => seconds (endedAt - run.startedAt)
  | none =>
    match (run.calls.filterMap CallRecord.endedAt).max? with
    | some endedAt => seconds (endedAt - run.startedAt)
    | none => ofInt 0

/-- The end of a completed LLM call. -/
def CallRecord.llmEnd (call : CallRecord) : Option Int :=
  if call.kind = .llm then call.endedAt else none

/-- The completed LLM calls of a run, with their ends and their positions among all calls. -/
def completedLlmCalls (calls : List CallRecord) : List (CallRecord × Int × Nat) :=
  calls.zipIdx.filterMap fun entry =>
    entry.1.llmEnd.map fun endedAt => (entry.1, endedAt, entry.2)

/-- The time until the next LLM call starts, completed or not. -/
def timeToNextMs (index : Nat) (endedAt : Int) : Option F :=
  ((run.calls.drop (index + 1)).find? fun call => call.kind = .llm).map fun next =>
    ofInt (numMilliseconds (next.startedAt - endedAt))

/-- The loop of `extract_llm_contexts`, with the number of calls of each name so far. -/
def pushContext (total : Nat) (state : OrderedMap String Nat × List (LlmCallContext F))
    (entry : (CallRecord × Int × Nat) × Nat) : OrderedMap String Nat × List (LlmCallContext F) :=
  let ⟨⟨call, endedAt, index⟩, position⟩ := entry
  let callCounts := Tally.bump state.1 call.name
  (callCounts, state.2 ++
    [{ path := [call.name]
       callIndex := (callCounts.get call.name).getD 0
       remainingCalls := (total - position - 1) % 2 ^ 32
       timeToNextMs := timeToNextMs run index endedAt
       outputTokens := call.outputTokens.getD 0
       callDurationS := seconds (endedAt - call.startedAt)
       workflowDurationS := workflowDurationS run
       parallelSlackRatio := ofInt 0
       sensitivityScore := ofInt 0
       spanStartTime := ofInt (timestamp call.startedAt)
       spanEndTime := ofInt (timestamp endedAt) }])

def extractLlmContexts : List (LlmCallContext F) :=
  let llmCalls := completedLlmCalls run.calls
  (llmCalls.zipIdx.foldl (pushContext run llmCalls.length) (.empty, [])).2

/-! ### Sensitivity -/

/-- The variables of `compute_logical_positions`. -/
structure LogicalGroups (F : Type) where
  assignments : List Nat
  currentGroup : Nat
  groupMaxEnd : F

variable (contexts : List (LlmCallContext F))

def assignGroup (groups : LogicalGroups F) (index : Nat) : LogicalGroups F :=
  match contexts[index]? with
  | none => groups
  | some context =>
    if Arithmetic.less context.spanStartTime groups.groupMaxEnd then
      { groups with
        assignments := groups.assignments.set index groups.currentGroup
        groupMaxEnd := Arithmetic.greatest groups.groupMaxEnd context.spanEndTime }
    else
      { assignments := groups.assignments.set index (groups.currentGroup + 1)
        currentGroup := groups.currentGroup + 1
        groupMaxEnd := context.spanEndTime }

/-- The positions of the calls in the order of their starts. -/
def sortedIndices : List Nat :=
  (contexts.zipIdx.mergeSort fun a b =>
    !Arithmetic.less b.1.spanStartTime a.1.spanStartTime).map Prod.snd

def computeLogicalPositions : List Nat :=
  match sortedIndices contexts with
  | [] => []
  | first :: rest =>
    match contexts[first]? with
    | none => []
    | some context =>
      (rest.foldl (assignGroup contexts)
        ⟨List.replicate contexts.length 0, 0, context.spanEndTime⟩).assignments

def logicalStepCount (logicalPositions : List Nat) : Nat :=
  logicalPositions.max?.elim 1 (· + 1)

def criticalPathWeight (context : LlmCallContext F) : F :=
  if Arithmetic.less (ofInt 0) context.workflowDurationS then
    Arithmetic.least (context.callDurationS / context.workflowDurationS) (ofInt 1)
  else ofInt 1

def fanoutScore (logicalPosition maxLogicalRemaining : Nat) : F :=
  if 0 < maxLogicalRemaining then
    ofInt (maxLogicalRemaining - logicalPosition : Nat) / ofInt maxLogicalRemaining
  else ofInt 0

def positionScore (logicalPosition numLogicalSteps : Nat) : F :=
  if 1 < numLogicalSteps then
    let normalizedPos : F := ofInt logicalPosition / ofInt (numLogicalSteps - 1 : Nat)
    Arithmetic.greatest (ofInt 1 - normalizedPos) normalizedPos
  else ofInt 1

def parallelPenalty (parallelSlackRatio : F) (groupSizes : OrderedMap Nat Nat)
    (logicalPosition : Nat) : F :=
  let groupSize := (groupSizes.get logicalPosition).getD 1
  if 1 < groupSize then
    let groupPenalty : F := ofInt (groupSize - 1 : Nat) / ofInt groupSize
    (parallelSlackRatio + groupPenalty) / ofInt 2
  else parallelSlackRatio

def computeRawSensitivityScores (logicalPositions : List Nat) (groupSizes : OrderedMap Nat Nat)
    (numLogicalSteps maxLogicalRemaining : Nat) (config : SensitivityConfig F) : List F :=
  contexts.mapIdx fun index context =>
    let logicalPosition := logicalPositions.getD index 0
    config.wCritical * criticalPathWeight context
      + config.wFanout * fanoutScore logicalPosition maxLogicalRemaining
      + config.wPosition * positionScore logicalPosition numLogicalSteps
      - config.wParallel * parallelPenalty context.parallelSlackRatio groupSizes logicalPosition

def normalizeSensitivityScores (rawScores : List F) : List (LlmCallContext F) :=
  let minScore := Arithmetic.leastOf rawScores
  let maxScore := Arithmetic.greatestOf rawScores
  let scoreRange := maxScore - minScore
  contexts.mapIdx fun index context =>
    match rawScores[index]? with
    | none => context
    | some raw =>
      { context with
        sensitivityScore :=
          if Arithmetic.less (ofInt 0) scoreRange then (raw - minScore) / scoreRange
          else hundredths 50 }

def computeSensitivityScores (config : SensitivityConfig F) : List (LlmCallContext F) :=
  if contexts.isEmpty then contexts
  else
    let logicalPositions := computeLogicalPositions contexts
    let numLogicalSteps := logicalStepCount logicalPositions
    let rawScores := computeRawSensitivityScores contexts logicalPositions
      (Tally.tally logicalPositions) numLogicalSteps (numLogicalSteps - 1) config
    normalizeSensitivityScores contexts rawScores

/-- What the trie learns from a run. -/
def runContexts (config : Option (SensitivityConfig F)) (run : RunRecord) :
    List (LlmCallContext F) :=
  match config with
  | some config => computeSensitivityScores (extractLlmContexts run) config
  | none => extractLlmContexts run

/-! ### Names and numbers -/

/-- What a context is looked up by. -/
def LlmCallContext.key (context : LlmCallContext F) : List String × Nat :=
  (context.path, context.callIndex)

def completedNames (calls : List CallRecord) : List String :=
  (calls.filter fun call => call.llmEnd.isSome).map CallRecord.name

/-- The number of a call of a name after other calls. -/
def callNumber (before : List CallRecord) (name : String) : Nat :=
  (completedNames before).count name + 1

/-- Names with their numbers, after other names. -/
def numbered (before : List String) : List String → List (List String × Nat)
  | [] => []
  | name :: names => ([name], before.count name + 1) :: numbered (before ++ [name]) names

variable {key : List String × Nat}

theorem mem_numbered {before names : List String} :
    key ∈ numbered before names ↔ ∃ front name back, names = front ++ name :: back ∧
      key = ([name], (before ++ front).count name + 1) := by
  induction names generalizing before with
  | nil => simp [numbered]
  | cons first names ih =>
    rw [numbered, mem_cons, ih]
    constructor
    · rintro (rfl | ⟨front, name, back, rfl, rfl⟩)
      · exact ⟨[], first, names, rfl, by simp⟩
      · exact ⟨first :: front, name, back, rfl, by simp⟩
    · rintro ⟨front, name, back, hnames, rfl⟩
      cases front with
      | nil =>
        cases hnames
        simp
      | cons _ front =>
        cases hnames
        exact .inr ⟨front, name, back, rfl, by simp⟩

theorem completedLlmCalls_names (calls : List CallRecord) :
    (completedLlmCalls calls).map (fun entry => entry.1.name) = completedNames calls := by
  have hname : ∀ index, (calls.zipIdx index).filterMap (fun entry =>
      entry.1.llmEnd.map fun _ => entry.1.name) = completedNames calls := by
    induction calls with
    | nil => intro index; rfl
    | cons call calls ih =>
      intro index
      rw [zipIdx_cons, filterMap_cons, ih, completedNames, completedNames]
      cases hend : call.llmEnd <;> simp [hend]
  rw [completedLlmCalls, map_filterMap, ← hname 0]
  simp only [Option.map_map, Function.comp_def]

theorem foldl_pushContext (run : RunRecord) (total : Nat) (before : List String)
    (contexts : List (LlmCallContext F)) (entries : List ((CallRecord × Int × Nat) × Nat)) :
    ((entries.foldl (pushContext run total) (Tally.tally before, contexts)).2).map
        LlmCallContext.key =
      contexts.map LlmCallContext.key ++
        numbered before (entries.map fun entry => entry.1.1.name) := by
  induction entries generalizing before contexts with
  | nil => simp [numbered]
  | cons entry entries ih =>
    have hbump : Tally.bump (Tally.tally before) entry.1.1.name =
        Tally.tally (before ++ [entry.1.1.name]) := by
      rw [Tally.tally_append]
      rfl
    have hget : ((Tally.tally (before ++ [entry.1.1.name])).get entry.1.1.name).getD 0 =
        before.count entry.1.1.name + 1 := by
      simp [Tally.get_tally]
    rw [foldl_cons, pushContext, hbump, ih]
    simp [numbered, LlmCallContext.key, hget]

theorem extractLlmContexts_keys (run : RunRecord) :
    (extractLlmContexts run).map (LlmCallContext.key (F := F)) =
      numbered [] (completedNames run.calls) := by
  have hnames : (completedLlmCalls run.calls).zipIdx.map (fun entry => entry.1.1.name) =
      completedNames run.calls := by
    rw [← completedLlmCalls_names]
    conv_rhs => rw [← zipIdx_map_fst 0 (completedLlmCalls run.calls), map_map]
    rfl
  rw [← hnames]
  exact foldl_pushContext run _ [] [] _

theorem normalizeSensitivityScores_keys (rawScores : List F) :
    (normalizeSensitivityScores contexts rawScores).map LlmCallContext.key =
      contexts.map LlmCallContext.key := by
  refine ext_getElem? fun i => ?_
  rw [normalizeSensitivityScores, getElem?_map, getElem?_mapIdx, getElem?_map, Option.map_map]
  congr 1
  funext context
  split <;> rfl

theorem runContexts_keys (config : Option (SensitivityConfig F)) (run : RunRecord) :
    (runContexts config run).map LlmCallContext.key = numbered [] (completedNames run.calls) := by
  rw [← extractLlmContexts_keys (F := F)]
  cases config with
  | none => rfl
  | some config =>
    rw [runContexts, computeSensitivityScores]
    split
    · rfl
    · exact normalizeSensitivityScores_keys _ _

/-- There is one context for each completed call, under its name and number. -/
theorem mem_contextKeys {config : Option (SensitivityConfig F)} {run : RunRecord} :
    key ∈ (runContexts config run).map LlmCallContext.key ↔
      ∃ before call after, run.calls = before ++ call :: after ∧ call.llmEnd.isSome ∧
        key = ([call.name], callNumber before call.name) := by
  rw [runContexts_keys, mem_numbered]
  constructor
  · rintro ⟨front, name, back, hnames, rfl⟩
    rw [completedNames, map_eq_append_iff] at hnames
    obtain ⟨completed, rest, hfilter, rfl, hrest⟩ := hnames
    obtain ⟨call, rest, rfl, rfl, -⟩ := map_eq_cons_iff.mp hrest
    obtain ⟨first, second, hcalls, rfl, hsecond⟩ := filter_eq_append_iff.mp hfilter
    obtain ⟨skipped, after, rfl, hskipped, hcall, -⟩ := filter_eq_cons_iff.mp hsecond
    refine ⟨first ++ skipped, call, after, by rw [hcalls, append_assoc], hcall, ?_⟩
    have hnone : skipped.filter (fun call => call.llmEnd.isSome) = [] :=
      filter_eq_nil_iff.mpr hskipped
    rw [callNumber, completedNames, filter_append, hnone, append_nil]
    rfl
  · rintro ⟨before, call, after, hcalls, hcall, rfl⟩
    refine ⟨completedNames before, call.name, completedNames after, ?_, rfl⟩
    simp [hcalls, completedNames, hcall]

end Contexts

end NemoRelay.Adaptive
