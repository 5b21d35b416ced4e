import NemoRelay.Adaptive.Profile
import NemoRelay.Adaptive.Records
import NemoRelay.Adaptive.Stability
import NemoRelay.Lib.Window

/-!
# The learner of the cache governor

After a run, the prompts of its LLM calls are grouped by learning key. For each key the new
observations are appended to the stored window, the window is stored and analyzed. The analysis of
the most stable window is also stored under the agent.
-/

namespace NemoRelay.Acg

open Adaptive OrderedMap

/-- The part of `InMemoryBackend` that the learner uses. -/
structure Backend (R : Type) where
  observations : OrderedMap String (List PromptIR)
  stability : OrderedMap String (StabilityAnalysisResult R)

/-- The part of `HotCache` that the learner writes. -/
structure HotCache (R : Type) where
  acgProfiles : OrderedMap String (StabilityAnalysisResult R)
  acgProfileObservationCounts : OrderedMap String Nat
  acgStability : Option (StabilityAnalysisResult R)
  acgObservationCount : Nat

structure AcgLearner (R : Type) where
  agentId : String
  observationWindow : Nat
  thresholds : StabilityThresholds R

/-- The iteration orders of the hash tables of one run. -/
structure LearnerOrders where
  /-- the observations by learning key -/
  keys : String → Nat
  /-- the tables of the analysis for a key -/
  analysis : String → Orders
  /-- the fingerprints for a key -/
  fingerprints : String → String → Nat

/-- The local variables of the loop over the learning keys, and the backend. -/
structure LearnerState (R : Type) where
  backend : Backend R
  profileStability : OrderedMap String (StabilityAnalysisResult R)
  profileCounts : OrderedMap String Nat
  bestProfileSeed : Option (List PromptIR × StabilityAnalysisResult R)

namespace AcgLearner

section Model

variable [Canonicalization] {R : Type} [Score R] (learner : AcgLearner R)

/-- The prompts of a run with their learning keys. -/
def keyedObservations (run : RunRecord) : List (String × PromptIR) :=
  ((run.calls.filter fun call => call.kind = .llm).filterMap (·.annotatedRequest)).filterMap
    fun request => (buildPromptIr request).toOption.map fun promptIr =>
      (deriveAcgLearningKey learner.agentId request, promptIr)

variable (orders : LearnerOrders)

/-- The analysis of a window, with the fingerprint of its learning key. -/
def analyzeWindow (learningKey : String) (observations : List PromptIR) :
    StabilityAnalysisResult R :=
  let result := analyzeStability (orders.analysis learningKey) observations learner.thresholds
  { result with
    stablePrefixFingerprint := dominantProfilePrefixFingerprint (orders.fingerprints learningKey)
      observations result.stablePrefixLength learningKey }

/-- A longer stable prefix is better, and then more observations. -/
def replacesBest (best : Option (List PromptIR × StabilityAnalysisResult R))
    (result : StabilityAnalysisResult R) : Bool :=
  best.all fun current =>
    current.2.stablePrefixLength < result.stablePrefixLength ||
      (current.2.stablePrefixLength = result.stablePrefixLength &&
        current.2.totalObservations < result.totalObservations)

/-- One learning key. -/
def processKey (state : LearnerState R) (entry : String × List PromptIR) : LearnerState R :=
  let learningKey := entry.1
  let existing := state.backend.observations.get learningKey
  let observations := Window.pushAll learner.observationWindow (existing.getD []) entry.2
  let result := learner.analyzeWindow orders learningKey observations
  { backend :=
      { observations := state.backend.observations.insert learningKey observations
        stability := state.backend.stability.insert learningKey result }
    profileStability := state.profileStability.insert learningKey result
    profileCounts := state.profileCounts.insert learningKey result.totalObservations
    bestProfileSeed :=
      if replacesBest state.bestProfileSeed result then some (observations, result)
      else state.bestProfileSeed }

/-- The loop over the learning keys. -/
def processKeys (backend : Backend R) (grouped : OrderedMap String (List PromptIR)) :
    LearnerState R :=
  (grouped.iterate orders.keys).foldl (learner.processKey orders) ⟨backend, .empty, .empty, none⟩

/-- The best window is also stored under the agent. -/
def storeSeed (backend : Backend R) :
    Option (List PromptIR × StabilityAnalysisResult R) → Backend R
  | some (observations, result) =>
    { observations := backend.observations.insert learner.agentId observations
      stability := backend.stability.insert learner.agentId result }
  | none => backend

/-- `HashMap::extend`. -/
def extend {ν : Type} (base added : OrderedMap String ν) : OrderedMap String ν :=
  added.entries.foldl (fun table entry => table.insert entry.1 entry.2) base

def updateHotCache (hotCache : HotCache R) (state : LearnerState R) : HotCache R :=
  { acgProfiles := extend hotCache.acgProfiles state.profileStability
    acgProfileObservationCounts := extend hotCache.acgProfileObservationCounts state.profileCounts
    acgObservationCount :=
      (state.bestProfileSeed.map fun seed => seed.2.totalObservations).getD
        hotCache.acgObservationCount
    acgStability := (state.bestProfileSeed.map Prod.snd).or hotCache.acgStability }

def processRun (run : RunRecord) (backend : Backend R) (hotCache : HotCache R) :
    Backend R × HotCache R :=
  let grouped := Tally.group (learner.keyedObservations run)
  if grouped.isEmpty then (backend, hotCache)
  else
    let state := learner.processKeys orders backend grouped
    (learner.storeSeed state.backend state.bestProfileSeed, updateHotCache hotCache state)

end Model

/-! ### One key -/

open Window

section Window

variable [Canonicalization] {R : Type} [Score R] (learner : AcgLearner R) (orders : LearnerOrders)
  (state : LearnerState R)

theorem get_processKey (entry : String × List PromptIR) (key : String) :
    (learner.processKey orders state entry).backend.observations.get key =
      if key = entry.1 then
        some (pushAll learner.observationWindow
          ((state.backend.observations.get key).getD []) entry.2)
      else state.backend.observations.get key := by
  rw [processKey, get_insert]
  split
  · next h => rw [h]
  · rfl

variable {key : String} {entries : List (String × List PromptIR)}

theorem get_foldl_processKey_of_not_mem (hkey : key ∉ entries.map Prod.fst) :
    (entries.foldl (learner.processKey orders) state).backend.observations.get key =
      state.backend.observations.get key := by
  induction entries generalizing state with
  | nil => rfl
  | cons entry entries ih =>
    rw [List.map_cons, List.mem_cons, not_or] at hkey
    rw [List.foldl_cons, ih _ hkey.2, get_processKey, if_neg hkey.1]

variable {observations : List PromptIR}

/-- A key that occurs once gets its window. -/
theorem get_foldl_processKey (hnodup : (entries.map Prod.fst).Nodup)
    (hmem : (key, observations) ∈ entries) :
    (entries.foldl (learner.processKey orders) state).backend.observations.get key =
      some (pushAll learner.observationWindow
        ((state.backend.observations.get key).getD []) observations) := by
  induction entries generalizing state with
  | nil => cases hmem
  | cons entry entries ih =>
    rw [List.map_cons, List.nodup_cons] at hnodup
    rw [List.foldl_cons]
    rcases List.mem_cons.mp hmem with rfl | hmem
    · rw [get_foldl_processKey_of_not_mem learner orders _ hnodup.1, get_processKey, if_pos rfl]
    · have hne : key ≠ entry.1 := by
        rintro rfl
        exact hnodup.1 (List.mem_map.mpr ⟨_, hmem, rfl⟩)
      rw [ih _ hnodup.2 hmem, get_processKey, if_neg hne]

theorem get_processKeys (backend : Backend R) {grouped : OrderedMap String (List PromptIR)}
    (h : grouped.get key = some observations) :
    (learner.processKeys orders backend grouped).backend.observations.get key =
      some (pushAll learner.observationWindow ((backend.observations.get key).getD [])
        observations) :=
  get_foldl_processKey learner orders _ (grouped.iterate_keys_nodup _)
    ((OrderedMap.mem_iterate _).mpr h)

/-! ### One run -/

/-- A learning key is longer than the agent. -/
theorem learningKey_ne_agentId (agentId : String) (request : AnnotatedLlmRequest) :
    deriveAcgLearningKey agentId request ≠ agentId := by
  intro h
  have hlength := congrArg String.length h
  have hlabel : "::model=".length = 8 := by decide
  rw [deriveAcgLearningKey] at hlength
  split at hlength <;> simp only [String.length_append] at hlength
  · omega
  · omega

omit [Score R] in
theorem ne_agentId_of_mem {learner : AcgLearner R} {run : RunRecord} {observation : PromptIR}
    (h : (key, observation) ∈ learner.keyedObservations run) : key ≠ learner.agentId := by
  obtain ⟨request, -, h⟩ := List.mem_filterMap.mp h
  obtain ⟨promptIr, -, h⟩ := Option.map_eq_some_iff.mp h
  rw [← (Prod.mk.inj h).1]
  exact learningKey_ne_agentId learner.agentId request

/-- The new observations of a run for one key. -/
def newObservations (learner : AcgLearner R) (run : RunRecord) (key : String) : List PromptIR :=
  Tally.members (learner.keyedObservations run) key

/-- The window that a run stores for a key. -/
theorem processRun_window (run : RunRecord) (backend : Backend R) (hotCache : HotCache R)
    (hnew : learner.newObservations run key ≠ []) :
    (learner.processRun orders run backend hotCache).1.observations.get key =
      some (pushAll learner.observationWindow ((backend.observations.get key).getD [])
        (learner.newObservations run key)) := by
  have hgroup : (Tally.group (learner.keyedObservations run)).get key =
      some (learner.newObservations run key) := Tally.group_eq_some.mpr ⟨rfl, hnew⟩
  have hkey : key ≠ learner.agentId := by
    obtain ⟨observation, hobservation⟩ := List.exists_mem_of_ne_nil _ hnew
    exact ne_agentId_of_mem (Tally.mem_members.mp hobservation)
  rw [processRun, if_neg (by simp [isEmpty_eq_false_of_get hgroup])]
  simp only [storeSeed]
  split
  · rw [get_insert_of_ne _ _ hkey, get_processKeys learner orders backend hgroup]
  · exact get_processKeys learner orders backend hgroup

/-- The stored window is the last observations up to the limit exactly if the window that was
stored before is within the limit. -/
theorem processRun_window_iff (learner : AcgLearner R) (orders : LearnerOrders) (run : RunRecord)
    (backend : Backend R) (hotCache : HotCache R) (key : String)
    (hnew : learner.newObservations run key ≠ []) :
    (learner.processRun orders run backend hotCache).1.observations.get key =
        some (last learner.observationWindow
          ((backend.observations.get key).getD [] ++ learner.newObservations run key)) ↔
      ((backend.observations.get key).getD []).length ≤ max 1 learner.observationWindow := by
  rw [processRun_window learner orders run backend hotCache hnew, Option.some_inj,
    pushAll_eq_last_iff hnew]

end Window

/-- A run with one LLM call. -/
def singleCallRun (request : AnnotatedLlmRequest) : RunRecord where
  id := 0
  agentId := "agent"
  calls := [⟨.llm, "model", 0, some 1, none, none, none, none, none, some request, none⟩]
  startedAt := 0
  endedAt := some 1

/-- Tables iterated in the order of their keys. -/
def unrankedLearner : LearnerOrders := ⟨fun _ => 0, fun _ => unranked, fun _ _ => 0⟩

def exactThresholds : StabilityThresholds Rat := ⟨3 / 4, 1 / 2, 20⟩

def emptyHotCache : HotCache Rat := ⟨.empty, .empty, none, 0⟩

/-- A backend with one stored window. -/
def storedWindow (key : String) (window : List PromptIR) : Backend Rat :=
  ⟨empty.insert key window, .empty⟩

def greeting : AnnotatedLlmRequest := .ofMessages [.user (.text "hi") none]

def blankPrompt : PromptIR := ⟨[], none, none, none⟩

/-- A full window of two. -/
theorem processRun_window_iff_single :
    let _ := forgetful
    let key := deriveAcgLearningKey "agent" greeting
    let learner : AcgLearner Rat := ⟨"agent", 2, exactThresholds⟩
    let run := singleCallRun greeting
    let backend := storedWindow key [blankPrompt, blankPrompt]
    learner.newObservations run key ≠ [] ∧
      ((learner.processRun unrankedLearner run backend emptyHotCache).1.observations.get key =
        some (last learner.observationWindow
          ((backend.observations.get key).getD [] ++ learner.newObservations run key)) ↔
        ((backend.observations.get key).getD []).length ≤ max 1 learner.observationWindow) := by
  let _ := forgetful
  refine ⟨?_, processRun_window_iff _ _ _ _ _ _ ?_⟩
  · decide
  · decide

/-- Three stored observations, a limit of one, and one new observation: three are stored again. -/
theorem processRun_window_too_long :
    let _ := forgetful
    let key := deriveAcgLearningKey "agent" greeting
    let learner : AcgLearner Rat := ⟨"agent", 1, exactThresholds⟩
    let old := [blankPrompt, blankPrompt, blankPrompt]
    let run := singleCallRun greeting
    let stored := (learner.processRun unrankedLearner run (storedWindow key old)
      emptyHotCache).1.observations.get key
    stored.map List.length = some 3 ∧
      stored ≠ some (last learner.observationWindow (old ++ learner.newObservations run key)) := by
  intro _ key learner old run stored
  have hnew : learner.newObservations run key ≠ [] := by decide
  have hbackend : (storedWindow key old).observations.get key = some old := get_insert_self _ _ _
  have hstored : stored = _ := processRun_window learner unrankedLearner run _ emptyHotCache hnew
  have hlength := length_pushAll 1 old hnew
  rw [hstored, hbackend]
  refine ⟨?_, fun h => ?_⟩
  · exact congrArg some (hlength.trans (by simp [old]))
  · have hlast := congrArg List.length (Option.some_inj.mp h)
    rw [Option.getD_some, length_last, hlength] at hlast
    simp [learner, old] at hlast

/-! ### Many runs -/

section Bounded

variable [Canonicalization] {R : Type} [Score R]

/-- Every stored window is within a limit. -/
def Bounded (limit : Nat) (backend : Backend R) : Prop :=
  ∀ key window, backend.observations.get key = some window → window.length ≤ max 1 limit

variable {backend : Backend R}

omit [Canonicalization] [Score R] in
theorem Bounded.length_getD {limit : Nat} (h : Bounded limit backend) (key : String) :
    ((backend.observations.get key).getD []).length ≤ max 1 limit := by
  cases hget : backend.observations.get key with
  | none => exact Nat.zero_le _
  | some window => exact h key window hget

/-- What the loop over the learning keys keeps. -/
structure BoundedState (limit : Nat) (state : LearnerState R) : Prop where
  backend : Bounded limit state.backend
  seed : ∀ window result, state.bestProfileSeed = some (window, result) →
    window.length ≤ max 1 limit

variable {learner : AcgLearner R}

theorem BoundedState.processKey {state : LearnerState R}
    (h : BoundedState learner.observationWindow state) (orders : LearnerOrders)
    (entry : String × List PromptIR) :
    BoundedState learner.observationWindow (learner.processKey orders state entry) := by
  have hlength := length_pushAll_le entry.2 (h.backend.length_getD entry.1)
  constructor
  · intro key window hget
    rw [get_processKey] at hget
    split at hget
    · next heq =>
      cases hget
      rwa [heq]
    · exact h.backend key window hget
  · intro window result hseed
    rw [AcgLearner.processKey] at hseed
    split at hseed
    · cases hseed
      exact hlength
    · exact h.seed window result hseed

section

variable (h : Bounded learner.observationWindow backend)
include h

variable (orders : LearnerOrders)

theorem BoundedState.processKeys (grouped : OrderedMap String (List PromptIR)) :
    BoundedState learner.observationWindow (learner.processKeys orders backend grouped) := by
  refine List.foldlRecOn _ _ ⟨h, nofun⟩ ?_
  intro state hstate entry _
  exact hstate.processKey orders entry

theorem Bounded.processRun (run : RunRecord) (hotCache : HotCache R) :
    Bounded learner.observationWindow (learner.processRun orders run backend hotCache).1 := by
  rw [AcgLearner.processRun]
  dsimp only
  split
  · exact h
  · have hstate := BoundedState.processKeys h orders (Tally.group (learner.keyedObservations run))
    intro key window hget
    unfold storeSeed at hget
    split at hget
    · next hseed =>
      obtain ⟨-, rfl⟩ | ⟨-, hget⟩ := get_insert_eq_some hget
      · exact hstate.seed _ _ hseed
      · exact hstate.backend key window hget
    · exact hstate.backend key window hget

/-- The runs of one learner, one after another. -/
def processRuns (learner : AcgLearner R) (runs : List (LearnerOrders × RunRecord))
    (backend : Backend R) (hotCache : HotCache R) : Backend R × HotCache R :=
  runs.foldl (fun state run => learner.processRun run.1 run.2 state.1 state.2) (backend, hotCache)

/-- Windows that only one learner writes stay within its limit. -/
theorem Bounded.processRuns (runs : List (LearnerOrders × RunRecord)) (hotCache : HotCache R) :
    Bounded learner.observationWindow (learner.processRuns runs backend hotCache).1 := by
  induction runs generalizing backend hotCache with
  | nil => exact h
  | cons run runs ih => exact ih (h.processRun run.1 run.2 hotCache) _

end

/-- What one learner stores, starting from nothing, stays within its limit over all runs. -/
theorem bounded_of_processRuns (learner : AcgLearner R)
    (runs : List (LearnerOrders × RunRecord)) (hotCache : HotCache R) :
    Bounded learner.observationWindow (learner.processRuns runs ⟨.empty, .empty⟩ hotCache).1 := by
  refine Bounded.processRuns ?_ runs hotCache
  intro key window hget
  cases hget

end Bounded

end AcgLearner

end NemoRelay.Acg
