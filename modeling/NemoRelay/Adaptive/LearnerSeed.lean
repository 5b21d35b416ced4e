import NemoRelay.Adaptive.Learner

/-!
# The window that a run stores under the agent

The learner keeps the first of the best windows in the order in which the hash table gives the
learning keys. Whether the order matters depends on the ties for the best rank.
-/

namespace NemoRelay.Acg.AcgLearner

open Adaptive OrderedMap

section Seed

variable [Canonicalization] {R : Type} [Score R]

/-- What the best window is chosen by. -/
def seedRank (result : StabilityAnalysisResult R) : Lex (Nat × Nat) :=
  toLex (result.stablePrefixLength, result.totalObservations)

omit [Canonicalization] [Score R] in
theorem replacesBest_eq (best : Option (List PromptIR × StabilityAnalysisResult R))
    (result : StabilityAnalysisResult R) :
    replacesBest best result = best.all fun current => seedRank current.2 < seedRank result := by
  cases best with
  | none => rfl
  | some current =>
    simp [replacesBest, seedRank, Prod.Lex.toLex_lt_toLex, Bool.decide_or, Bool.decide_and]

/-- The window of a key after the new observations, and its analysis. -/
def seedOf (learner : AcgLearner R) (orders : LearnerOrders) (backend : Backend R)
    (entry : String × List PromptIR) : List PromptIR × StabilityAnalysisResult R :=
  let observations := Window.pushAll learner.observationWindow
    ((backend.observations.get entry.1).getD []) entry.2
  (observations, learner.analyzeWindow orders entry.1 observations)

variable (learner : AcgLearner R) (orders : LearnerOrders)

open Tally

/-- The keys are different, so that no key sees the window of another. -/
theorem foldl_processKey_seed (backend : Backend R) {entries : List (String × List PromptIR)}
    (hnodup : (entries.map Prod.fst).Nodup) :
    (entries.foldl (learner.processKey orders) ⟨backend, .empty, .empty, none⟩).bestProfileSeed =
      firstMax (fun seed => seedRank seed.2) (entries.map (learner.seedOf orders backend)) := by
  induction entries using List.reverseRecOn with
  | nil => rfl
  | append_singleton entries last ih =>
    rw [List.map_append, List.nodup_append] at hnodup
    obtain ⟨hentries, -, hdisjoint⟩ := hnodup
    have hlast : last.1 ∉ entries.map Prod.fst := fun hmem => hdisjoint _ hmem _ (by simp) rfl
    have hwindow := get_foldl_processKey_of_not_mem learner orders
      ⟨backend, .empty, .empty, none⟩ hlast
    rw [List.foldl_append, List.map_append, List.map_singleton, firstMax_concat, ← ih hentries]
    simp only [List.foldl_cons]
    rw [processKey]
    simp only [hwindow, replacesBest_eq]
    rfl

/-- The analysis that a run makes for a key. -/
def runAnalysis (learner : AcgLearner R) (orders : LearnerOrders) (run : RunRecord)
    (backend : Backend R) (key : String) : StabilityAnalysisResult R :=
  (learner.seedOf orders backend (key, learner.newObservations run key)).2

/-- A key of the run whose window has the best rank. -/
def IsBest (learner : AcgLearner R) (orders : LearnerOrders) (run : RunRecord)
    (backend : Backend R) (key : String) : Prop :=
  learner.newObservations run key ≠ [] ∧ ∀ other, learner.newObservations run other ≠ [] →
    seedRank (learner.runAnalysis orders run backend other) ≤
      seedRank (learner.runAnalysis orders run backend key)

/-- The analysis that a run stores under the agent, if the run has new observations. -/
def storedAnalysis (learner : AcgLearner R) (orders : LearnerOrders) (run : RunRecord)
    (backend : Backend R) (hotCache : HotCache R) : Option (StabilityAnalysisResult R) :=
  (learner.processRun orders run backend hotCache).1.stability.get learner.agentId

variable {seed : List PromptIR × StabilityAnalysisResult R}

theorem mem_iterate_seed {learner : AcgLearner R} {orders : LearnerOrders} {run : RunRecord}
    {backend : Backend R} :
    seed ∈ ((group (learner.keyedObservations run)).iterate orders.keys).map
        (learner.seedOf orders backend) ↔
      ∃ key, learner.newObservations run key ≠ [] ∧
        seed = learner.seedOf orders backend (key, learner.newObservations run key) := by
  simp only [List.mem_map, OrderedMap.mem_iterate, Prod.exists, group_eq_some]
  constructor
  · rintro ⟨key, observations, ⟨rfl, hne⟩, rfl⟩
    exact ⟨key, hne, rfl⟩
  · rintro ⟨key, hne, rfl⟩
    exact ⟨key, _, ⟨rfl, hne⟩, rfl⟩

theorem storedAnalysis_eq (run : RunRecord) (backend : Backend R) (hotCache : HotCache R)
    (hseed : firstMax (fun seed => seedRank seed.2) (((group
      (learner.keyedObservations run)).iterate orders.keys).map (learner.seedOf orders backend))
      = some seed) : learner.storedAnalysis orders run backend hotCache = some seed.2 := by
  have hempty : (group (learner.keyedObservations run)).isEmpty = false := by
    cases hempty : (group (learner.keyedObservations run)).isEmpty with
    | false => rfl
    | true =>
      have hentries : (group (learner.keyedObservations run)).entries = [] :=
        List.isEmpty_iff.mp hempty
      rw [iterate, hentries] at hseed
      cases hseed
  rw [storedAnalysis, processRun, hempty]
  dsimp only
  rw [processKeys, foldl_processKey_seed learner orders backend (iterate_keys_nodup _ _), hseed]
  exact get_insert_self _ _ _

/-- What is stored is the analysis of a best key. -/
theorem storedAnalysis_isBest (run : RunRecord) (backend : Backend R) (hotCache : HotCache R)
    (hne : (group (learner.keyedObservations run)).isEmpty = false) :
    ∃ key, learner.IsBest orders run backend key ∧
      learner.storedAnalysis orders run backend hotCache =
        some (learner.runAnalysis orders run backend key) := by
  have hseeds : ((group (learner.keyedObservations run)).iterate orders.keys).map
      (learner.seedOf orders backend) ≠ [] := by
    intro hnil
    have hentries := (iterate_perm orders.keys (group (learner.keyedObservations run))).symm
    rw [List.map_eq_nil_iff.mp hnil, List.perm_nil] at hentries
    simp [isEmpty, hentries] at hne
  obtain ⟨seed, hseed, hmem, hle⟩ := firstMax_spec (fun seed => seedRank seed.2) hseeds
  obtain ⟨key, hkey, rfl⟩ := mem_iterate_seed.mp hmem
  exact ⟨key, ⟨hkey, fun other hother => hle _ (mem_iterate_seed.mpr ⟨other, hother, rfl⟩)⟩,
    learner.storedAnalysis_eq orders run backend hotCache hseed⟩

/-- A best key that comes first gives what is stored. -/
theorem storedAnalysis_of_first {run : RunRecord} {backend : Backend R} (hotCache : HotCache R)
    {key : String} (hbest : learner.IsBest orders run backend key)
    (hfirst : ∀ other, other ≠ key → orders.keys key < orders.keys other) :
    learner.storedAnalysis orders run backend hotCache =
      some (learner.runAnalysis orders run backend key) := by
  have hget : (group (learner.keyedObservations run)).get key =
      some (learner.newObservations run key) := group_eq_some.mpr ⟨rfl, hbest.1⟩
  obtain ⟨rest, hrest⟩ := iterate_eq_cons hget hfirst
  have hseed : firstMax (fun seed => seedRank seed.2)
      (((group (learner.keyedObservations run)).iterate orders.keys).map
        (learner.seedOf orders backend)) =
      some (learner.seedOf orders backend (key, learner.newObservations run key)) := by
    rw [hrest]
    refine firstMax_cons fun seed hseed => ?_
    have hmem : seed ∈ ((group (learner.keyedObservations run)).iterate orders.keys).map
        (learner.seedOf orders backend) := by
      rw [hrest]
      exact List.mem_cons_of_mem _ hseed
    obtain ⟨other, hother, rfl⟩ := mem_iterate_seed.mp hmem
    exact hbest.2 other hother
  exact learner.storedAnalysis_eq orders run backend hotCache hseed

/-- The order of the learning keys does not matter for what is stored under the agent exactly if all
best windows have the same analysis. -/
theorem seed_order_independent_iff (learner : AcgLearner R) (orders : LearnerOrders)
    (run : RunRecord) (backend : Backend R) (hotCache : HotCache R) :
    (∀ keys keys' : String → Nat,
      (learner.processRun { orders with keys := keys } run backend hotCache).1.stability.get
          learner.agentId =
        (learner.processRun { orders with keys := keys' } run backend hotCache).1.stability.get
          learner.agentId) ↔
      ∀ key key', learner.IsBest orders run backend key → learner.IsBest orders run backend key' →
        learner.runAnalysis orders run backend key =
          learner.runAnalysis orders run backend key' := by
  constructor
  · intro h key key' hbest hbest'
    have hsame := h (fun other => if other = key then 0 else 1)
      (fun other => if other = key' then 0 else 1)
    have hfirst := learner.storedAnalysis_of_first
      { orders with keys := fun other => if other = key then 0 else 1 } hotCache hbest
      (by simp +contextual)
    have hfirst' := learner.storedAnalysis_of_first
      { orders with keys := fun other => if other = key' then 0 else 1 } hotCache hbest'
      (by simp +contextual)
    exact Option.some_inj.mp (hfirst.symm.trans (hsame.trans hfirst'))
  · intro h keys keys'
    cases hempty : (group (learner.keyedObservations run)).isEmpty with
    | true => simp [processRun, hempty]
    | false =>
      obtain ⟨key, hbest, hstored⟩ := learner.storedAnalysis_isBest { orders with keys := keys } run
        backend hotCache hempty
      obtain ⟨key', hbest', hstored'⟩ := learner.storedAnalysis_isBest
        { orders with keys := keys' } run backend hotCache hempty
      exact hstored.trans ((congrArg some (h key key' hbest hbest')).trans hstored'.symm)

end Seed

/-- A run with two LLM calls. -/
def twoCallRun (first second : AnnotatedLlmRequest) : RunRecord :=
  { singleCallRun first with calls := (singleCallRun first).calls ++ (singleCallRun second).calls }

/-- One request to each of two models: both windows have one observation, and the analysis of the
model that comes first is stored. -/
theorem seed_order_matters :
    let _ := forgetful
    let first := { greeting with model := some "a" }
    let second := { greeting with model := some "b" }
    let learner : AcgLearner Rat := ⟨"agent", 2, exactThresholds⟩
    let key := deriveAcgLearningKey "agent" first
    let key' := deriveAcgLearningKey "agent" second
    let stored := fun keys => (learner.processRun { unrankedLearner with keys := keys }
      (twoCallRun first second) ⟨.empty, .empty⟩ emptyHotCache).1.stability.get "agent"
    stored (fun other => if other = key then 0 else 1) ≠
      stored (fun other => if other = key' then 0 else 1) := by
  decide +kernel

end NemoRelay.Acg.AcgLearner
