import NemoRelay.Adaptive.Trie.Builder

/-!
# What the prediction trie predicts

The accumulators of a node are those of the contexts that were counted there. A look-up of a name
reaches the node of that name only if the name survives joining and splitting.
-/

namespace NemoRelay.Adaptive

open List

open Arithmetic (ofInt)
open PredictionTrieBuilder (addRuns new)
open PredictionTrieLookup (find getPrediction)

open LlmCallContext

section Predictions

variable {F D : Type} [Arithmetic F] [Digest F D]

/-! ### Accumulators -/

/-- The samples that some observations give for a call index. -/
def samplesAt (value : LlmCallContext F → Option F) (observations : List (LlmCallContext F))
    (callIndex : Nat) : List F :=
  (observations.filter fun context => context.callIndex = callIndex).filterMap value

variable (value : LlmCallContext F → Option F) (observations : List (LlmCallContext F))

omit [Arithmetic F] in
theorem members_filterMap (callIndex : Nat) :
    Tally.members (observations.filterMap fun context =>
      (value context).map (context.callIndex, ·)) callIndex =
      samplesAt value observations callIndex := by
  rw [Tally.members, filter_filterMap, map_filterMap, samplesAt, filterMap_filter]
  congr 1
  funext context
  cases value context with
  | none => simp
  | some sample => by_cases hindex : context.callIndex = callIndex <;> simp [hindex]

theorem get_foldl_sampleAt (callIndex : Nat) :
    (observations.foldl (fun stats context => sampleAt stats context.callIndex (value context))
      (.empty : IndexedStats F D)).get callIndex =
      if samplesAt value observations callIndex = [] then none
      else some (.ofSamples (samplesAt value observations callIndex)) := by
  have hfold : observations.foldl (fun (stats : IndexedStats F D) context =>
        sampleAt stats context.callIndex (value context)) .empty =
      (observations.filterMap fun context => (value context).map (context.callIndex, ·)).foldl
        (Tally.feed RunningStats.addSample .new) .empty := by
    rw [foldl_filterMap]
    congr 1
    funext stats context
    cases value context <;> rfl
  rw [hfold, Tally.get_foldl_feed, members_filterMap, OrderedMap.get_empty]
  rfl

/-- The accumulators after some observations. -/
def accumulate (hasSensitivity : Bool) (observations : List (LlmCallContext F)) :
    NodeAccumulators F D :=
  observations.foldl (addToAccumulators hasSensitivity) .empty

variable {hasSensitivity : Bool} {observations : List (LlmCallContext F)} {callIndex : Nat}
  {field : NodeAccumulators F D → IndexedStats F D}

/-- Each of the accumulators sees the observations in their order. -/
theorem get_accumulate (hempty : field .empty = .empty)
    (hstep : ∀ accs context, field (addToAccumulators hasSensitivity accs context) = sampleAt
      (field accs) context.callIndex (value context)) :
    (field (accumulate hasSensitivity observations)).get callIndex =
      if samplesAt value observations callIndex = [] then none
      else some (.ofSamples (samplesAt value observations callIndex)) := by
  rw [← get_foldl_sampleAt, ← hempty, accumulate,
    foldl_hom field fun accs context => (hstep accs context).symm]

theorem metricsAt_accumulate {value : LlmCallContext F → Option F} (hempty : field .empty = .empty)
    (hstep : ∀ accs context, field (addToAccumulators hasSensitivity accs context) = sampleAt
      (field accs) context.callIndex (value context)) :
    metricsAt (field (accumulate hasSensitivity observations)) callIndex =
      (RunningStats.ofSamples (samplesAt value observations callIndex) :
        RunningStats F D).computeMetrics := by
  rw [metricsAt, get_accumulate value hempty hstep]
  split
  · next hnone =>
    rw [hnone]
    rfl
  · rfl

def statsOf (D : Type) [Digest F D] (value : LlmCallContext F → Option F)
    (observations : List (LlmCallContext F)) : RunningStats F D :=
  .ofSamples (observations.filterMap value)

/-- The prediction from some observations. -/
def predictionOf (D : Type) [Digest F D] (config : Option (SensitivityConfig F))
    (observations : List (LlmCallContext F)) : LlmCallPrediction F where
  remainingCalls := (statsOf D remainingSample observations).computeMetrics
  interarrivalMs := (statsOf D LlmCallContext.timeToNextMs observations).computeMetrics
  outputTokens := (statsOf D tokensSample observations).computeMetrics
  latencySensitivity := config.bind
    (scoreToSensitivity (statsOf D (sensitivitySample true) observations))

variable (config : Option (SensitivityConfig F))

theorem predictionAt_accumulate (observations : List (LlmCallContext F)) (callIndex : Nat) :
    predictionAt config (accumulate config.isSome observations : NodeAccumulators F D) callIndex =
      predictionOf D config (observations.filter fun context => context.callIndex = callIndex) := by
  unfold predictionAt predictionOf
  rw [LlmCallPrediction.mk.injEq]
  refine ⟨metricsAt_accumulate rfl fun _ _ => rfl, metricsAt_accumulate rfl fun _ _ => rfl,
    metricsAt_accumulate rfl fun _ _ => rfl, ?_⟩
  cases config with
  | none => rfl
  | some config =>
    have hget : (accumulate true observations : NodeAccumulators F D).sensitivity.get callIndex =
        _ := get_accumulate (sensitivitySample true) rfl fun _ _ => rfl
    rw [Option.isSome_some, hget]
    change _ = scoreToSensitivity
      (.ofSamples (samplesAt (sensitivitySample true) observations callIndex) :
        RunningStats F D) config
    cases samplesAt (sensitivitySample true) observations callIndex <;> rfl

/-! ### Nodes -/

/-- All contexts of some runs, in order. -/
def allContexts (runs : List RunRecord) : List (LlmCallContext F) :=
  runs.flatMap (runContexts config)

/-- What is counted at the node of a key. -/
def countedAt (observations : List (LlmCallContext F)) (key : String) : List (LlmCallContext F) :=
  Tally.members (observations.flatMap fun context => (nodeKeys context.path).map (·, context)) key

theorem addRuns_eq (nodes : OrderedMap String (NodeAccumulators F D)) (runs : List RunRecord) :
    addRuns ⟨⟨nodes⟩, config⟩ runs = ⟨⟨((allContexts config runs).flatMap fun context =>
        (nodeKeys context.path).map (·, context)).foldl
          (Tally.feed (addToAccumulators config.isSome) .empty) nodes⟩, config⟩ := by
  -- neither loop changes the configuration
  let withNodes nodes : PredictionTrieBuilder F D := ⟨⟨nodes⟩, config⟩
  rw [allContexts, flatMap_assoc, foldl_flatMap]
  refine foldl_hom withNodes fun nodes run => ?_
  rw [foldl_flatMap]
  refine foldl_hom withNodes fun nodes context => ?_
  rw [foldl_map]
  rfl

theorem get_nodes (runs : List RunRecord) (key : String) :
    ((new config : PredictionTrieBuilder F D).addRuns
      runs).accumulators.nodes.get key =
      if countedAt (allContexts config runs) key = [] then none
      else some (accumulate config.isSome (countedAt (allContexts config runs) key)) := by
  rw [new, addRuns_eq, Tally.get_foldl_feed, OrderedMap.get_empty]
  rfl

/-! ### The trie -/

theorem intercalate_keyPath (key : String) : "/".intercalate (keyPath key) = key := by
  unfold keyPath
  split
  · next hempty => rw [hempty]; rfl
  · rw [← String.toList_inj, String.toList_intercalate, map_map]
    have hlists : String.toList ∘ String.ofList = id := funext fun _ => String.toList_ofList
    rw [hlists, map_id]
    exact intercalate_splitOn '/'

theorem keyPath_injective : Function.Injective keyPath :=
  Function.LeftInverse.injective intercalate_keyPath

variable {key name : String}

/-- A name is the path of its own key, unless joining and splitting changes it. -/
theorem keyPath_eq_singleton :
    keyPath key = [name] ↔ key = name ∧ name ≠ "" ∧ '/' ∉ name.toList := by
  constructor
  · intro h
    have hkey : key = name := by rw [← intercalate_keyPath key, h]; rfl
    subst hkey
    unfold keyPath at h
    split at h
    · cases h
    · next hne =>
      refine ⟨rfl, hne, fun hslash => ?_⟩
      obtain ⟨front, back, hsplit⟩ := append_of_mem hslash
      rw [hsplit, splitOn_append_cons_self] at h
      have hlength := congrArg List.length h
      have hfront := length_pos_of_ne_nil (splitOn_ne_nil '/' front)
      have hback := length_pos_of_ne_nil (splitOn_ne_nil '/' back)
      simp only [length_append, length_map, length_singleton] at hlength
      omega
  · rintro ⟨rfl, hne, hslash⟩
    rw [keyPath, if_neg hne, splitOn_eq_singleton hslash, map_singleton, String.ofList_toList]

omit [Arithmetic F] [Digest F D] in
theorem nodup_keyPaths (order : String → Nat) (nodes : OrderedMap String (NodeAccumulators F D)) :
    ((nodes.iterate order).map fun entry => keyPath entry.1).Nodup := by
  have hpaths := (nodes.iterate_keys_nodup order).map keyPath_injective
  rwa [map_map] at hpaths

variable {order : String → Nat} {builder : PredictionTrieBuilder F D}

open Trie

/-- The node of a key has the predictions of its accumulators. -/
theorem valueAt_build {accs : NodeAccumulators F D}
    (hkey : builder.accumulators.nodes.get key = some accs) :
    valueAt .new (keyPath key) (builder.build order) =
      populateNodePredictions builder.sensitivityConfig accs
        (valueAt .new (keyPath key) (.leaf (.new "root"))) :=
  valueAt_foldl_modify_of_mem (fun entry => populateNodePredictions _ entry.2)
    (nodup_keyPaths order _) ((OrderedMap.mem_iterate order).mpr hkey : (key, accs) ∈ _) _

/-- A path without a key has no predictions. -/
theorem valueAt_build_of_none (order : String → Nat) (builder : PredictionTrieBuilder F D)
    {path : List String}
    (hpath : ∀ key accs, builder.accumulators.nodes.get key = some accs → keyPath key ≠ path) :
    valueAt .new path (builder.build order) = valueAt .new path (.leaf (.new "root")) :=
  valueAt_foldl_modify_of_notMem (fun entry => populateNodePredictions _ entry.2)
    (fun entry hentry => hpath entry.1 entry.2 ((OrderedMap.mem_iterate order).mp hentry)) _

/-! ### Look-ups -/

omit [Arithmetic F] in
theorem getPrediction_new (callIndex : Nat) (name : String) :
    getPrediction callIndex (.new name : PredictionNode F) = none := rfl

omit [Arithmetic F] in
theorem find_singleton (root : PredictionTrieNode F) (name : String) (callIndex : Nat) :
    find root [name] callIndex =
      (getPrediction callIndex (valueAt .new [name] root)).or
        (getPrediction callIndex (valueAt .new [] root)) := by
  have hinits : [name].inits.reverse = [[name], []] := rfl
  rw [find, deepest_eq (getPrediction_new callIndex), hinits,
    findSome?_cons, findSome?_cons, findSome?_nil]
  cases getPrediction callIndex (valueAt .new [name] root) with
  | none =>
    cases getPrediction callIndex (valueAt .new [] root) <;> rfl
  | some prediction => rfl

omit [Arithmetic F] in
theorem valueAt_leaf (path : List String) (name : String) :
    ∃ name', valueAt .new path (.leaf (.new name) : PredictionTrieNode F) = .new name' := by
  induction path generalizing name with
  | nil => exact ⟨name, rfl⟩
  | cons next path ih => exact ih next

variable {config : Option (SensitivityConfig F)}

theorem getPrediction_populate (hindex : ∃ context ∈ observations, context.callIndex = callIndex) :
    getPrediction callIndex (populateNodePredictions config
      (accumulate config.isSome observations : NodeAccumulators F D) (.new name)) =
      some (predictionOf D config
        (observations.filter fun context => context.callIndex = callIndex)) := by
  have hget : (accumulate config.isSome observations : NodeAccumulators F D).remainingCalls.get
      callIndex = _ := get_accumulate remainingSample rfl fun _ _ => rfl
  have hsamples : samplesAt remainingSample observations callIndex ≠ [] := by
    obtain ⟨context, hmem, hcontext⟩ := hindex
    refine ne_nil_of_mem (mem_filterMap.mpr ⟨context, ?_, rfl⟩)
    simpa using ⟨hmem, hcontext⟩
  rw [if_neg hsamples] at hget
  have hmem : callIndex ∈
      (accumulate config.isSome observations : NodeAccumulators F D).indices := by
    refine mem_append_left _ (mem_append_left _ (SortedMap.get_isSome_iff.mp ?_))
    exact Option.isSome_iff_exists.mpr ⟨_, hget⟩
  rw [getPrediction, populateNodePredictions, OrderedMap.get_foldl_insert,
    if_pos hmem, predictionAt_accumulate]
  rfl

/-- A node where some observation was counted predicts what was counted there. -/
theorem getPrediction_build (order : String → Nat) (config : Option (SensitivityConfig F))
    (runs : List RunRecord)
    (hindex : ∃ context ∈ countedAt (allContexts config runs) key, context.callIndex = callIndex) :
    getPrediction callIndex (valueAt .new (keyPath key)
      (((new config : PredictionTrieBuilder F D).addRuns runs).build order)) =
      some (predictionOf D config ((countedAt (allContexts config runs) key).filter
        fun context => context.callIndex = callIndex)) := by
  have hcounted : countedAt (allContexts config runs) key ≠ [] := by
    obtain ⟨context, hmem, -⟩ := hindex
    exact ne_nil_of_mem hmem
  have hnode := get_nodes (D := D) config runs key
  rw [if_neg hcounted] at hnode
  obtain ⟨name, hname⟩ := valueAt_leaf (keyPath key) "root"
  rw [valueAt_build hnode, hname, addRuns_eq]
  exact getPrediction_populate hindex

/-! ### What is counted where -/

/-- The names of the completed calls of some runs. -/
def runNames (runs : List RunRecord) : List String :=
  runs.flatMap fun run => completedNames run.calls

theorem allContexts_keys (config : Option (SensitivityConfig F)) (runs : List RunRecord) :
    (allContexts config runs).map LlmCallContext.key =
      runs.flatMap fun run => numbered [] (completedNames run.calls) := by
  rw [allContexts, map_flatMap]
  simp only [runContexts_keys]

variable {runs : List RunRecord}

theorem exists_path {context : LlmCallContext F} (h : context ∈ allContexts config runs) :
    ∃ name ∈ runNames runs, context.path = [name] := by
  have hkey := mem_map_of_mem (f := LlmCallContext.key) h
  rw [allContexts_keys, mem_flatMap] at hkey
  obtain ⟨run, hrun, hkey⟩ := hkey
  obtain ⟨front, name, back, hnames, heq⟩ := mem_numbered.mp hkey
  refine ⟨name, mem_flatMap.mpr ⟨run, hrun, ?_⟩, congrArg Prod.fst heq⟩
  rw [hnames]
  simp

theorem exists_singleton_path (config : Option (SensitivityConfig F)) (runs : List RunRecord) :
    ∀ context ∈ allContexts config runs, ∃ name, context.path = [name] := by
  intro context hcontext
  obtain ⟨name, -, hname⟩ := exists_path hcontext
  exact ⟨name, hname⟩

theorem path_ne_empty (config : Option (SensitivityConfig F))
    (h : "" ∉ runNames runs) : ∀ context ∈ allContexts config runs, context.path ≠ [""] := by
  intro context hcontext hpath
  obtain ⟨name, hname, heq⟩ := exists_path hcontext
  rw [heq, singleton_inj] at hpath
  exact h (hpath ▸ hname)

/-- Every name has a first call. -/
theorem exists_first (config : Option (SensitivityConfig F)) (h : name ∈ runNames runs) :
    ∃ context ∈ allContexts config runs, context.key = ([name], 1) := by
  obtain ⟨run, hrun, hname⟩ := mem_flatMap.mp h
  obtain ⟨front, back, hnames, hfront⟩ := eq_append_cons_of_mem hname
  have hkey : ([name], 1) ∈ (allContexts config runs).map LlmCallContext.key := by
    rw [allContexts_keys, mem_flatMap]
    refine ⟨run, hrun, mem_numbered.mpr ⟨front, name, back, hnames, ?_⟩⟩
    rw [nil_append, count_eq_zero_of_not_mem hfront]
  simpa using hkey

section

variable (hpaths : ∀ context ∈ observations, ∃ name, context.path = [name])
include hpaths
omit [Arithmetic F]

theorem countedAt_of_paths (key : String) :
    countedAt observations key = observations.flatMap fun context =>
      (if key = "" then [context] else []) ++ if context.path = [key] then [context] else [] := by
  rw [countedAt, Tally.members, filter_flatMap, map_flatMap]
  refine flatMap_congr fun context hcontext => ?_
  obtain ⟨name, hname⟩ := hpaths context hcontext
  have hkeys : nodeKeys [name] = ["", name] := rfl
  rw [hname, hkeys]
  by_cases hroot : key = ""
  · by_cases hown : name = key
    · simp [hroot, hown]
    · simp [hroot, hroot ▸ hown]
  · by_cases hown : name = key <;> simp [hown, hroot, Ne.symm hroot]

theorem countedAt_name (hkey : key ≠ "") :
    countedAt observations key = observations.filter fun context => context.path = [key] := by
  rw [countedAt_of_paths hpaths]
  simp only [if_neg hkey, nil_append]
  clear hpaths
  induction observations with
  | nil => rfl
  | cons context observations ih =>
    rw [flatMap_cons, ih, filter_cons]
    by_cases hown : context.path = [key] <;> simp [hown]

/-- An observation with an empty name is counted twice at the root. -/
theorem length_countedAt_root :
    (countedAt observations "").length =
      observations.length + (observations.filter fun context => context.path = [""]).length := by
  rw [countedAt_of_paths hpaths]
  clear hpaths
  induction observations with
  | nil => rfl
  | cons context observations ih =>
    rw [flatMap_cons, length_append, ih, filter_cons, length_cons]
    by_cases hempty : context.path = [""]
    · simp [hempty]
      omega
    · simp [hempty]
      omega

theorem countedAt_root (hempty : ∀ context ∈ observations, context.path ≠ [""]) :
    countedAt observations "" = observations := by
  rw [countedAt_of_paths hpaths]
  conv_rhs => rw [← flatMap_singleton' observations]
  refine flatMap_congr fun context hcontext => ?_
  rw [if_pos rfl, if_neg (hempty context hcontext), append_nil]

end

theorem count_accumulate :
    (accumulate hasSensitivity observations : NodeAccumulators F D).allRemainingCalls.count =
      observations.length := by
  rw [accumulate, ← @List.foldl_hom _ _ _
    (fun accs : NodeAccumulators F D => accs.allRemainingCalls.count) _ (fun count _ => count + 1)
    _ _ fun _ _ => rfl]
  simp [NodeAccumulators.empty, RunningStats.new]

/-! ### Calls find their own predictions -/

/-- Each completed call finds the prediction of the calls of its name and number, and no node counts
a call twice. -/
structure PredictsOwn (D : Type) [Digest F D] (config : Option (SensitivityConfig F))
    (order : String → Nat) (runs : List RunRecord) : Prop where
  found : ∀ run ∈ runs, ∀ before call after, run.calls = before ++ call :: after →
    call.llmEnd.isSome →
    PredictionTrieLookup.find
        (((PredictionTrieBuilder.new config : PredictionTrieBuilder F D).addRuns runs).build order)
        [call.name] (callNumber before call.name) =
      some (predictionOf D config ((allContexts config runs).filter fun context =>
        context.key = ([call.name], callNumber before call.name)))
  once : ∀ key accs, ((PredictionTrieBuilder.new config : PredictionTrieBuilder F D).addRuns
      runs).accumulators.nodes.get key = some accs →
    ∃ counted, counted.Sublist (allContexts config runs) ∧ accs = accumulate config.isSome counted

/-- Names that joining with slashes and splitting does not confuse. -/
structure SeparateNames (runs : List RunRecord) : Prop where
  nonempty : "" ∉ runNames runs
  slash : (∀ name ∈ runNames runs, '/' ∉ name.toList) ∨
    ∀ name ∈ runNames runs, ∀ name' ∈ runNames runs, name = name'

section Separate

variable {config : Option (SensitivityConfig F)} {runs : List RunRecord} {name : String}

/-- The node of a name without a slash answers for the name. -/
theorem find_name (hname : name ≠ "") (hslash : '/' ∉ name.toList)
    (hkey : ∃ context ∈ allContexts config runs, context.key = ([name], callIndex)) :
    find (((new config : PredictionTrieBuilder F D).addRuns runs).build order)
        [name] callIndex =
      some (predictionOf D config ((allContexts config runs).filter fun context =>
        context.key = ([name], callIndex))) := by
  have hcounted := countedAt_name (exists_singleton_path config runs) hname
  have hpath : keyPath name = [name] := keyPath_eq_singleton.mpr ⟨rfl, hname, hslash⟩
  obtain ⟨context, hmem, hcontext⟩ := hkey
  obtain ⟨hcpath, hcindex⟩ := Prod.mk.inj hcontext
  have hindex : ∃ context ∈ countedAt (allContexts config runs) name,
      context.callIndex = callIndex :=
    ⟨context, by rw [hcounted]; simp [hmem, hcpath], hcindex⟩
  have hbuild := getPrediction_build (D := D) order config runs hindex
  rw [find_singleton, ← hpath, hbuild, Option.some_or, hcounted, filter_filter, hpath]
  congr 3
  funext context
  simp [LlmCallContext.key, and_comm]

/-- For a name with a slash, the root answers. -/
theorem find_slash (hslash : '/' ∈ name.toList)
    (hindex : ∃ context ∈ countedAt (allContexts config runs) "", context.callIndex = callIndex) :
    find (((new config : PredictionTrieBuilder F D).addRuns runs).build order)
        [name] callIndex =
      some (predictionOf D config ((countedAt (allContexts config runs) "").filter fun context =>
        context.callIndex = callIndex)) := by
  have hnone := valueAt_build_of_none order
    ((new config : PredictionTrieBuilder F D).addRuns runs)
    fun key accs _ (hpath : keyPath key = [name]) => (keyPath_eq_singleton.mp hpath).2.2 hslash
  obtain ⟨name', hname'⟩ := valueAt_leaf [name] "root"
  rw [find_singleton, hnone, hname', getPrediction_new]
  exact getPrediction_build order config runs hindex

theorem PredictsOwn.of_separate (h : SeparateNames runs) : PredictsOwn D config order runs := by
  have hpaths := exists_singleton_path config runs
  have hempty := path_ne_empty config h.nonempty
  refine ⟨fun run hrun before call after hcalls hend => ?_, fun key accs haccs => ?_⟩
  · have hkey : ∃ context ∈ allContexts config runs,
        context.key = ([call.name], callNumber before call.name) := by
      have hmem : ([call.name], callNumber before call.name) ∈
          (runContexts config run).map LlmCallContext.key :=
        mem_contextKeys.mpr ⟨before, call, after, hcalls, hend, rfl⟩
      obtain ⟨context, hcontext, heq⟩ := mem_map.mp hmem
      exact ⟨context, mem_flatMap.mpr ⟨run, hrun, hcontext⟩, heq⟩
    obtain ⟨context, hcontext, heq⟩ := hkey
    obtain ⟨name, hname, hpath⟩ := exists_path hcontext
    have hcall : call.name = name := by
      have := (congrArg Prod.fst heq).symm.trans hpath
      exact singleton_inj.mp this
    by_cases hslash : '/' ∈ call.name.toList
    · -- all calls have this name, so that the root counts the same
      have hsame := h.slash.resolve_left fun hno => hno name hname (hcall ▸ hslash)
      have hroot := countedAt_root hpaths hempty
      rw [find_slash hslash ⟨context, by rwa [hroot], congrArg Prod.snd heq⟩, hroot]
      congr 2
      refine filter_congr fun other hother => ?_
      obtain ⟨name', hname', hpath'⟩ := exists_path hother
      simp [LlmCallContext.key, hpath', hcall, hsame name' hname' name hname]
    · exact find_name (fun hnil => h.nonempty (hnil ▸ hcall ▸ hname)) hslash
        ⟨context, hcontext, heq⟩
  · rw [get_nodes] at haccs
    split at haccs
    · cases haccs
    · cases haccs
      refine ⟨_, ?_, rfl⟩
      by_cases hroot : key = ""
      · rw [hroot, countedAt_root hpaths hempty]
      · rw [countedAt_name hpaths hroot]
        exact filter_sublist

/-- At the root an empty name would be counted twice. -/
theorem PredictsOwn.nonempty (h : PredictsOwn D config order runs) : "" ∉ runNames runs := by
  intro hempty
  obtain ⟨context, hcontext, hkey⟩ := exists_first config hempty
  have hlength := length_countedAt_root (exists_singleton_path config runs)
  have hpos : 0 < ((allContexts config runs).filter fun context => context.path = [""]).length :=
    length_pos_of_mem (by simpa using ⟨hcontext, congrArg Prod.fst hkey⟩)
  have hne : countedAt (allContexts config runs) "" ≠ [] :=
    ne_nil_of_length_pos (by omega)
  obtain ⟨counted, hsublist, haccs⟩ := h.once "" _ ((get_nodes config runs "").trans (if_neg hne))
  have hcount := congrArg (fun accs => accs.allRemainingCalls.count) haccs
  simp only [count_accumulate] at hcount
  have hle := hsublist.length_le
  omega

end Separate

end Predictions

/-! ### Counting statistics -/

/-- All samples; every quantile is their number. -/
instance : Digest Rat (List Rat) where
  newWithSize _ := []
  mergeUnsorted := (· ++ ·)
  estimateQuantile samples _ := samples.length

theorem digest_ofSamples (samples : List Rat) :
    (RunningStats.ofSamples samples : RunningStats Rat (List Rat)).digest = samples := by
  have hfold : ∀ stats : RunningStats Rat (List Rat),
      (samples.foldl RunningStats.addSample stats).digest = stats.digest ++ samples := by
    induction samples with
    | nil => simp
    | cons sample samples ih =>
      intro stats
      rw [foldl_cons, ih]
      simp [RunningStats.addSample, Digest.mergeUnsorted]
  exact hfold .new

theorem p50_predictionOf (observations : List (LlmCallContext Rat)) :
    (predictionOf (List Rat) none observations).remainingCalls.p50 = observations.length := by
  have hsamples : observations.filterMap remainingSample =
      observations.map fun context => (ofInt context.remainingCalls : Rat) :=
    congrFun filterMap_eq_map _
  rw [predictionOf, statsOf, hsamples, RunningStats.computeMetrics, RunningStats.count_ofSamples,
    length_map]
  split
  · next hnil =>
    rw [hnil]
    rfl
  · rw [digest_ofSamples]
    exact congrArg Nat.cast (length_map _)

/-- The root counts the first calls of all names. -/
theorem PredictsOwn.eq_of_slash {order : String → Nat} {runs : List RunRecord} {name name' : String}
    (h : PredictsOwn (List Rat) (none : Option (SensitivityConfig Rat)) order runs)
    (hname : name ∈ runNames runs) (hslash : '/' ∈ name.toList) (hname' : name' ∈ runNames runs) :
    name' = name := by
  have hroot := countedAt_root (exists_singleton_path (F := Rat) none runs)
    (path_ne_empty none h.nonempty)
  obtain ⟨context, hcontext, hkey⟩ := exists_first (F := Rat) none hname
  obtain ⟨run, hrun, hmem⟩ := mem_flatMap.mp hcontext
  obtain ⟨before, call, after, hcalls, hend, heq⟩ :=
    mem_contextKeys.mp (mem_map_of_mem hmem)
  have hfound := h.found run hrun before call after hcalls hend
  have hcall : call.name = name ∧ callNumber before call.name = 1 := by
    rw [hkey, Prod.mk.injEq, singleton_inj] at heq
    exact ⟨heq.1.symm, heq.2.symm⟩
  rw [hcall.2, hcall.1, find_slash hslash ⟨context, by rwa [hroot], congrArg Prod.snd hkey⟩, hroot,
    Option.some_inj] at hfound
  have hcount := congrArg (fun prediction => prediction.remainingCalls.p50) hfound
  simp only [p50_predictionOf, Nat.cast_inj] at hcount
  simp only [LlmCallContext.key, Prod.mk.injEq, Bool.decide_and] at hcount
  rw [← filter_filter, eq_comm, length_filter_eq_length_iff] at hcount
  obtain ⟨context', hcontext', hkey'⟩ := exists_first (F := Rat) none hname'
  obtain ⟨hpath', hindex'⟩ := Prod.mk.inj hkey'
  have hpath := hcount context' (by simpa using ⟨hcontext', hindex'⟩)
  rw [decide_eq_true_iff, hpath', singleton_inj] at hpath
  exact hpath

/-- The trie predicts what was observed exactly if no name is empty, and no name has a slash or
there is only one name. -/
theorem predictsOwn_iff (runs : List RunRecord) :
    (∀ (F D : Type) [Arithmetic F] [Digest F D] (config : Option (SensitivityConfig F))
      (order : String → Nat), PredictsOwn D config order runs) ↔ SeparateNames runs := by
  refine ⟨fun h => ?_, fun h F D _ _ config order => .of_separate h⟩
  have hown := h Rat (List Rat) none fun _ => 0
  refine ⟨hown.nonempty, ?_⟩
  by_cases hslash : ∀ name ∈ runNames runs, '/' ∉ name.toList
  · exact .inl hslash
  · push Not at hslash
    obtain ⟨slashed, hslashed, hslash⟩ := hslash
    exact .inr fun name hname name' hname' => (hown.eq_of_slash hslashed hslash hname).trans
      (hown.eq_of_slash hslashed hslash hname').symm

/-- A completed LLM call of one millisecond. -/
def shortCall (name : String) : CallRecord :=
  ⟨.llm, name, 0, some 1000000, none, none, none, none, none, none, none⟩

/-- The name `a/b` is looked up at the root, which counts `c` as well. -/
theorem not_predictsOwn_slash :
    ¬ PredictsOwn (List Rat) (none : Option (SensitivityConfig Rat)) (fun _ => 0)
      [⟨0, "agent", [shortCall "a/b", shortCall "c"], 0, some 1000000⟩] := by
  intro h
  have hname : "c" = "a/b" := h.eq_of_slash (by decide) (by decide) (by decide)
  exact absurd hname (by decide)

end NemoRelay.Adaptive
