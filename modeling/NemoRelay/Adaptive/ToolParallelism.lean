import NemoRelay.Adaptive.Canonical
import NemoRelay.Adaptive.Records
import NemoRelay.Lib.Grouping

/-!
# Tool fan-out

Tools whose calls overlap in a run form a cohort. The learner enters the cohorts of every run into
the execution plan: a group of the tools of the cohort, whose id comes from the joined names, and a
hint for each of the tools.
-/

namespace NemoRelay.Adaptive

open List

open Acg (Canonicalization sha256Hex)
open Grouping

structure ObservedToolCall where
  name : String
  startedAt : Int
  endedAt : Int

structure ParallelGroup where
  groupId : String
  toolNames : List String
  deriving DecidableEq

structure ParallelHint where
  toolName : String
  groupId : String
  explicit : Bool
  deriving DecidableEq

structure MetadataEnvelope where
  runId : Uuid
  agentId : String
  parallelHints : List ParallelHint
  extensions : Json

structure ExecutionPlan where
  agentId : String
  parallelGroups : List ParallelGroup
  metadataTemplate : MetadataEnvelope

/-! ### Cohorts -/

/-- A tool call that has ended. -/
def observedToolCall (call : CallRecord) : Option ObservedToolCall :=
  if call.kind = .tool then
    call.endedAt.map fun endedAt => ⟨call.name, call.startedAt, endedAt⟩
  else none

/-- The active calls and the cohorts found so far, after one more call. -/
def observeCall (sweep : List ObservedToolCall × List (List String)) (current : ObservedToolCall) :
    List ObservedToolCall × List (List String) :=
  let active := sweep.1.filter fun call => current.startedAt < call.endedAt
  let toolNames := (active.map (·.name) ++ [current.name]).insertionSort (· ≤ ·)
  (active ++ [current], if active.isEmpty then sweep.2 else sweep.2.insert toolNames)

/-- `derive_observed_cohorts`. -/
def deriveObservedCohorts (run : RunRecord) : List (List String) :=
  let calls := (run.calls.filterMap observedToolCall).insertionSort fun call call' =>
    call.startedAt ≤ call'.startedAt
  (calls.foldl observeCall ([], [])).2.insertionSort (· ≤ ·)

/-! ### The plan -/

section Plan

variable [Canonicalization]

/-- `build_parallel_group`. A digest starts with `sha256:`: an id keeps five digits of it. -/
def buildParallelGroup (toolNames : List String) : ParallelGroup :=
  let groupHash := sha256Hex ("|".intercalate toolNames)
  ⟨"fanout:" ++ String.ofList (groupHash.toList.take 12), toolNames⟩

def hintKey (hint : ParallelHint) : String ×ₗ String := toLex (hint.toolName, hint.groupId)

/-- One hint for each of the different tools. -/
def hintsFor (group : ParallelGroup) : List ParallelHint :=
  group.toolNames.dedup.map fun toolName => ⟨toolName, group.groupId, false⟩

/-- `merge_observed_cohorts`. The two tables are filled independently. -/
def mergeObservedCohorts (plan : ExecutionPlan) (observedCohorts : List (List String))
    (runId : Uuid) : ExecutionPlan :=
  let groups := observedCohorts.map buildParallelGroup
  let groupsById := enter ParallelGroup.groupId .empty (plan.parallelGroups ++ groups)
  let hintsByKey :=
    enter hintKey .empty (plan.metadataTemplate.parallelHints ++ groups.flatMap hintsFor)
  { plan with
    parallelGroups := groupsById.entries.map Prod.snd
    metadataTemplate :=
      { plan.metadataTemplate with
        agentId := plan.agentId
        runId
        parallelHints := hintsByKey.entries.map Prod.snd } }

variable (agentId : String)

/-- `empty_execution_plan`. -/
def emptyExecutionPlan (runId : Uuid) : ExecutionPlan :=
  ⟨agentId, [], ⟨runId, agentId, [], .obj []⟩⟩

def loadPlan (stored : Option ExecutionPlan) (runId : Uuid) : ExecutionPlan :=
  stored.getD (emptyExecutionPlan agentId runId)

/-- `process_run`. A run without cohorts leaves the stored plan as it is. -/
def processRun (stored : Option ExecutionPlan) (run : RunRecord) : Option ExecutionPlan :=
  let observedCohorts := deriveObservedCohorts run
  if observedCohorts.isEmpty then stored
  else
    let plan := { loadPlan agentId stored run.id with agentId }
    some (mergeObservedCohorts plan observedCohorts run.id)

/-- The plan stored after the runs, none being stored before. -/
def storedPlan (runs : List RunRecord) : Option ExecutionPlan :=
  runs.foldl (processRun agentId) none

/-! ### What a plan knows -/

def groupIdOf (cohort : List String) : String := (buildParallelGroup cohort).groupId

/-- Every cohort has a group of its own, and every hint is about a tool of its group. -/
structure Tracks (observed : List (List String)) (plan : ExecutionPlan) : Prop where
  grouped : ∀ cohort ∈ observed, ∃ group ∈ plan.parallelGroups,
    group.groupId = groupIdOf cohort ∧ group.toolNames = cohort
  distinct : ∀ cohort ∈ observed, ∀ cohort' ∈ observed, cohort ≠ cohort' →
    groupIdOf cohort ≠ groupIdOf cohort'
  hinted : ∀ hint ∈ plan.metadataTemplate.parallelHints, ∃ group ∈ plan.parallelGroups,
    group.groupId = hint.groupId ∧ hint.toolName ∈ group.toolNames

/-- What holds whatever the ids are: the id of every cohort is in use, and groups and hints are
those of cohorts. -/
structure Learned (observed : List (List String)) (plan : ExecutionPlan) : Prop where
  kept : ∀ cohort ∈ observed, ∃ group ∈ plan.parallelGroups, group.groupId = groupIdOf cohort
  built : ∀ group ∈ plan.parallelGroups, ∃ cohort ∈ observed, group = buildParallelGroup cohort
  hinted : ∀ hint ∈ plan.metadataTemplate.parallelHints, ∃ cohort ∈ observed,
    hint ∈ hintsFor (buildParallelGroup cohort)

variable {observed cohorts : List (List String)} {plan : ExecutionPlan}

theorem Learned.merge (h : Learned observed plan) (runId : Uuid) :
    Learned (observed ++ cohorts) (mergeObservedCohorts plan cohorts runId) := by
  constructor
  · intro cohort hcohort
    rcases mem_append.mp hcohort with hold | hnew
    · obtain ⟨group, hgroup, hid⟩ := h.kept cohort hold
      rw [← hid]
      exact exists_mem_enter (mem_append_left _ hgroup)
    · exact exists_mem_enter (mem_append_right _ (mem_map_of_mem hnew))
  · intro group hgroup
    rcases mem_append.mp (mem_of_mem_enter hgroup) with hold | hnew
    · obtain ⟨cohort, hcohort, heq⟩ := h.built group hold
      exact ⟨cohort, mem_append_left _ hcohort, heq⟩
    · obtain ⟨cohort, hcohort, rfl⟩ := mem_map.mp hnew
      exact ⟨cohort, mem_append_right _ hcohort, rfl⟩
  · intro hint hhint
    rcases mem_append.mp (mem_of_mem_enter hhint) with hold | hnew
    · obtain ⟨cohort, hcohort, hmem⟩ := h.hinted hint hold
      exact ⟨cohort, mem_append_left _ hcohort, hmem⟩
    · obtain ⟨group, hgroup, hmem⟩ := mem_flatMap.mp hnew
      obtain ⟨cohort, hcohort, rfl⟩ := mem_map.mp hgroup
      exact ⟨cohort, mem_append_right _ hcohort, hmem⟩

theorem learned_storedPlan (agentId : String) (runs : List RunRecord) (runId : Uuid) :
    Learned (runs.flatMap deriveObservedCohorts)
      (loadPlan agentId (storedPlan agentId runs) runId) := by
  induction runs using List.reverseRecOn generalizing runId with
  | nil =>
    constructor
    · exact fun _ h => absurd h not_mem_nil
    · exact fun _ h => absurd h not_mem_nil
    · exact fun _ h => absurd h not_mem_nil
  | append_singleton runs run ih =>
    rw [flatMap_append, flatMap_singleton, storedPlan, foldl_append, foldl_cons, processRun]
    split
    · rename_i hempty
      rw [isEmpty_iff.mp hempty, append_nil]
      exact ih runId
    · have h := ih run.id
      have hplan : Learned _ { loadPlan agentId (storedPlan agentId runs) run.id with agentId } :=
        ⟨h.kept, h.built, h.hinted⟩
      exact hplan.merge run.id

def joinedNames (cohort : List String) : String := "|".intercalate cohort

/-- What is kept of the digest of a text. -/
def keptDigits (text : String) : List Char := (sha256Hex text).toList.take 12

theorem groupIdOf_eq_iff {cohort cohort' : List String} : groupIdOf cohort = groupIdOf cohort' ↔
    keptDigits (joinedNames cohort) = keptDigits (joinedNames cohort') := by
  rw [groupIdOf, groupIdOf, buildParallelGroup, buildParallelGroup, String.append_right_inj]
  exact String.ofList_inj

/-- The plan tracks the observed cohorts exactly if different cohorts have different joined names,
and these have digests of which different parts are kept. -/
theorem tracks_storedPlan_iff (agentId : String) (runs : List RunRecord) (runId : Uuid) :
    let observed := runs.flatMap deriveObservedCohorts
    Tracks observed (loadPlan agentId (storedPlan agentId runs) runId) ↔
      ∀ cohort ∈ observed, ∀ cohort' ∈ observed, cohort ≠ cohort' →
        joinedNames cohort ≠ joinedNames cohort' ∧
          keptDigits (joinedNames cohort) ≠ keptDigits (joinedNames cohort') := by
  intro observed
  constructor
  · intro h cohort hcohort cohort' hcohort' hne
    have hid := mt groupIdOf_eq_iff.mpr (h.distinct cohort hcohort cohort' hcohort' hne)
    exact ⟨fun hjoined => hid (by rw [hjoined]), hid⟩
  · intro hdistinct
    have hlearned := learned_storedPlan agentId runs runId
    have hids : ∀ cohort ∈ observed, ∀ cohort' ∈ observed, cohort ≠ cohort' →
        groupIdOf cohort ≠ groupIdOf cohort' := fun cohort hcohort cohort' hcohort' hne =>
      mt groupIdOf_eq_iff.mp (hdistinct cohort hcohort cohort' hcohort' hne).2
    have hgroup : ∀ cohort ∈ observed, buildParallelGroup cohort ∈
        (loadPlan agentId (storedPlan agentId runs) runId).parallelGroups := by
      intro cohort hcohort
      obtain ⟨group, hgroup, hid⟩ := hlearned.kept cohort hcohort
      obtain ⟨cohort', hcohort', rfl⟩ := hlearned.built group hgroup
      rwa [← not_imp_not.mp (hids cohort' hcohort' cohort hcohort) hid]
    refine ⟨fun cohort hcohort => ⟨_, hgroup cohort hcohort, rfl, rfl⟩, hids, ?_⟩
    intro hint hhint
    obtain ⟨cohort, hcohort, hmem⟩ := hlearned.hinted hint hhint
    obtain ⟨toolName, htool, rfl⟩ := mem_map.mp hmem
    exact ⟨_, hgroup cohort hcohort, rfl, mem_dedup.mp htool⟩

end Plan

def toolCall (name : String) (startedAt endedAt : Int) : CallRecord :=
  ⟨.tool, name, startedAt, some endedAt, none, none, none, none, none, none, none⟩

/-- Two runs. The names of their cohorts are the same when joined. -/
def pipedRuns : List RunRecord :=
  [⟨1, "agent", [toolCall "a" 0 10, toolCall "b|c" 5 15], 0, some 20⟩,
    ⟨2, "agent", [toolCall "a|b" 0 10, toolCall "c" 5 15], 0, some 20⟩]

/-- Both cohorts have one id. The group of the first one is gone, and the hint for its tool is about
a group without that tool. -/
theorem pipedRuns_share_group :
    letI := Acg.plain
    let plan := loadPlan "agent" (storedPlan "agent" pipedRuns) 3
    pipedRuns.flatMap deriveObservedCohorts = [["a", "b|c"], ["a|b", "c"]] ∧
      plan.parallelGroups = [⟨groupIdOf ["a", "b|c"], ["a|b", "c"]⟩] ∧
      (⟨"b|c", groupIdOf ["a", "b|c"], false⟩ : ParallelHint) ∈
        plan.metadataTemplate.parallelHints ∧
      ¬ Tracks (pipedRuns.flatMap deriveObservedCohorts) plan := by
  let _ := Acg.plain
  refine ⟨by decide +kernel, by decide +kernel, by decide +kernel, fun h => ?_⟩
  exact h.distinct ["a", "b|c"] (by decide +kernel) ["a|b", "c"] (by decide +kernel) (by decide)
    (by decide +kernel)

end NemoRelay.Adaptive
