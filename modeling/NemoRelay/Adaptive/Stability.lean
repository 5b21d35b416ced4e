import Mathlib.Data.List.MinMax
import Mathlib.Data.Rat.Floor
import NemoRelay.Adaptive.PromptIr
import NemoRelay.Lib.JsonText
import NemoRelay.Lib.StableSort
import NemoRelay.Lib.Tally

/-!
# Prompt stability

`analyze_stability` scores the spans of a window of prompts, and finds the prefix that a dominant
share of the window has in common. The hash tables it uses are iterated in orders that the process
draws at random: `Orders` holds one order for each of them. The arithmetic is a class, so that the
results hold for floating-point numbers as well as for exact ones.
-/

namespace NemoRelay.Acg

open Tally StableSort List

/-- The arithmetic of scores. -/
class Score (R : Type) where
  /-- `n as f64` -/
  ofCount : Nat → R
  mul : R → R → R
  div : R → R → R
  /-- `a >= b` -/
  atLeast : R → R → Bool
  /-- `f64::min` -/
  least : R → R → R
  /-- `x.clamp(0.0, 1.0)` -/
  clampUnit : R → R
  /-- `x.ceil() as usize` -/
  ceilCount : R → Nat

export Score (ofCount)

/-- Exact scores. -/
instance : Score Rat where
  ofCount n := n
  mul := (· * ·)
  div := (· / ·)
  atLeast a b := decide (b ≤ a)
  least := min
  clampUnit x := max 0 (min 1 x)
  ceilCount x := ⌈x⌉₊

structure StabilityThresholds (R : Type) where
  stableThreshold : R
  semiStableThreshold : R
  minObservationsForFullConfidence : Nat

inductive StabilityClass
  | stable
  | semiStable
  | variable
  deriving DecidableEq

structure BlockStabilityScore (R : Type) where
  spanId : String
  classification : StabilityClass
  score : R
  confidence : R
  observationCount : Nat
  deriving DecidableEq

structure StabilityAnalysisResult (R : Type) where
  scores : List (BlockStabilityScore R)
  stablePrefixLength : Nat
  stablePrefixFingerprint : Option String
  totalObservations : Nat
  deriving DecidableEq

structure SpanObservations where
  hashCounts : OrderedMap String Nat
  presentCount : Nat
  firstSeenSequenceIndex : Nat

abbrev SpanMap := OrderedMap String SpanObservations

/-- The iteration orders of the hash tables of one analysis. -/
structure Orders where
  /-- the spans seen in an observation -/
  seen : Nat → String → Nat
  /-- the table of spans -/
  spans : String → Nat
  /-- the digests of a span -/
  hashes : String → String → Nat
  /-- the children at a depth -/
  children : Nat → String → Nat
  /-- the fingerprints -/
  fingerprints : String → Nat

/-- Tables iterated in the order of their keys. -/
def unranked : Orders := ⟨fun _ _ => 0, fun _ => 0, fun _ _ => 0, fun _ _ => 0, fun _ => 0⟩

/-! ### Recording a window -/

section Record

variable [Canonicalization]

/-- The entry of a span after one more block. -/
def observeBlock (entry : Option SpanObservations) (block : PromptBlock) : SpanObservations :=
  let entry := entry.getD ⟨.empty, 0, block.sequenceIndex⟩
  { entry with
    hashCounts := bump entry.hashCounts (sha256Hex block.content)
    firstSeenSequenceIndex := min entry.firstSeenSequenceIndex block.sequenceIndex }

def recordBlockObservation (spans : SpanMap) (block : PromptBlock) : SpanMap :=
  spans.insert block.spanId (observeBlock (spans.get block.spanId) block)

def SpanObservations.incrementPresent (entry : SpanObservations) : SpanObservations :=
  { entry with presentCount := entry.presentCount + 1 }

def incrementPresentCounts (spans : SpanMap) (seen : List String) : SpanMap :=
  seen.foldl (fun spans spanId =>
    match spans.get spanId with
    | some entry => spans.insert spanId entry.incrementPresent
    | none => spans) spans

def recordObservation (order : String → Nat) (spans : SpanMap) (observation : PromptIR) : SpanMap :=
  let recorded := observation.blocks.foldl recordBlockObservation spans
  let seen : OrderedMap String Unit :=
    observation.blocks.foldl (fun seen block => seen.insert block.spanId ()) .empty
  incrementPresentCounts recorded ((seen.iterate order).map Prod.fst)

/-- The table of spans after a window. -/
def spanMap (orders : Orders) (observations : List PromptIR) : SpanMap :=
  observations.zipIdx.foldl (fun spans observation =>
    recordObservation (orders.seen observation.2) spans observation.1) .empty

end Record

/-! ### Scores -/

section Scores

variable {R : Type} [Score R]

def effectiveStabilityScore (order : String → Nat) (observations : SpanObservations)
    (totalObservations : Nat) : R :=
  let maxHashCount := ((observations.hashCounts.iterate order).map Prod.snd).foldr max 0
  let presenceRate : R :=
    Score.div (ofCount observations.presentCount) (ofCount totalObservations)
  let dominantFraction : R :=
    if observations.presentCount = 0 then ofCount 0
    else Score.div (ofCount maxHashCount) (ofCount observations.presentCount)
  Score.mul presenceRate dominantFraction

def classifyStability (effectiveScore : R) (thresholds : StabilityThresholds R) : StabilityClass :=
  if Score.atLeast effectiveScore thresholds.stableThreshold then .stable
  else if Score.atLeast effectiveScore thresholds.semiStableThreshold then .semiStable
  else .variable

def stabilityConfidence (presentCount : Nat) (thresholds : StabilityThresholds R) : R :=
  if thresholds.minObservationsForFullConfidence = 0 then ofCount 1
  else
    Score.least (Score.div (ofCount presentCount)
      (ofCount thresholds.minObservationsForFullConfidence)) (ofCount 1)

def buildStabilityScore (order : String → Nat) (spanId : String) (observations : SpanObservations)
    (totalObservations : Nat) (thresholds : StabilityThresholds R) : Nat × BlockStabilityScore R :=
  let effectiveScore : R := effectiveStabilityScore order observations totalObservations
  (observations.firstSeenSequenceIndex,
    { spanId := spanId
      classification := classifyStability effectiveScore thresholds
      score := effectiveScore
      confidence := stabilityConfidence observations.presentCount thresholds
      observationCount := observations.presentCount })

/-- Ranks a classification so that the least stable span sorts first. -/
def StabilityClass.rank : StabilityClass → Nat
  | .variable => 0
  | .semiStable => 1
  | .stable => 2

/-- What `canonical_scores` sorts by. -/
def scoreKey (indexed : Nat × BlockStabilityScore R) : Nat ×ₗ Nat ×ₗ String :=
  toLex (indexed.1, toLex (indexed.2.classification.rank, indexed.2.spanId))

def canonicalScores (indexed : List (Nat × BlockStabilityScore R)) : List (BlockStabilityScore R) :=
  (sortByKey scoreKey indexed).map Prod.snd

end Scores

/-! ### Prefixes -/

def BlockContentType.name : BlockContentType → String
  | .text => "text"
  | .toolSchema => "tool_schema"
  | .toolResult => "tool_result"
  | .structuredOutput => "structured_output"
  | .image => "image"

/-- The JSON text of the array of span, role, content type and content. -/
def blockKey (block : PromptBlock) : String :=
  String.ofList ('[' :: JsonText.quote block.spanId.toList ++ ',' ::
    JsonText.quote block.role.text.toList ++ ',' ::
    JsonText.quote block.contentType.name.toList ++ ',' ::
    JsonText.quote block.content.toList ++ [']'])

/-- The observations at a depth, each under the key of its block. One that ends here has none. -/
def childEntries (depth : Nat) (members : List PromptIR) : List (String × PromptIR) :=
  members.filterMap fun observation =>
    observation.blocks[depth]?.map fun block => (blockKey block, observation)

/-- The loop of `dominant_prefix_length`. -/
def descend (order : Nat → String → Nat) (required : Nat) : Nat → Nat → List PromptIR → Nat
  | 0, depth, _ => depth
  | fuel + 1, depth, members =>
    match dominant (order depth) required (childEntries depth members) with
    | none => depth
    | some dominant => descend order required fuel (depth + 1) dominant

/-- Depth of the longest prompt. -/
def longest (observations : List PromptIR) : Nat :=
  (observations.map fun observation => observation.blocks.length).foldr max 0

/-- `clamp`, for a lower bound that is not above the upper one. -/
def clampCount (lower upper count : Nat) : Nat := max lower (min upper count)

def requiredShare {R : Type} [Score R] (total : Nat) (threshold : R) : Nat :=
  clampCount (total / 2 + 1) (max total 1)
    (Score.ceilCount (Score.mul threshold (ofCount total : R)))

def dominantPrefixLength {R : Type} [Score R] (order : Nat → String → Nat)
    (observations : List PromptIR) (threshold : R) : Nat :=
  descend order (requiredShare observations.length threshold) (longest observations + 1) 0
    observations

section Analyze

variable [Canonicalization]

def promptPrefixFingerprint (observation : PromptIR) (prefixLength : Nat) : Option String :=
  if prefixLength = 0 ∨ observation.blocks.length < prefixLength then none
  else
    some (sha256Hex ("\n".intercalate ((observation.blocks.take prefixLength).map blockKey)))

/-- The most frequent digest, the smallest of them on a tie. -/
def dominantFingerprint (order : String → Nat) (fingerprints : List String) : Option String :=
  (lastMax (fun entry : String × Nat => toLex (entry.2, OrderDual.toDual entry.1))
    ((tally fingerprints).iterate order)).map Prod.fst

variable {R : Type} [Score R] (orders : Orders) (observations : List PromptIR)
  (thresholds : StabilityThresholds R)

/-- The scores of a window before sorting. -/
def indexedScores : List (Nat × BlockStabilityScore R) :=
  ((spanMap orders observations).iterate orders.spans).map fun entry =>
    buildStabilityScore (orders.hashes entry.1) entry.1 entry.2 observations.length thresholds

def analyzeStability : StabilityAnalysisResult R :=
  if observations.isEmpty then
    { scores := [], stablePrefixLength := 0, stablePrefixFingerprint := none,
      totalObservations := 0 }
  else
    let stablePrefixLength :=
      dominantPrefixLength orders.children observations thresholds.stableThreshold
    { scores := canonicalScores (indexedScores orders observations thresholds)
      stablePrefixLength := stablePrefixLength
      stablePrefixFingerprint := dominantFingerprint orders.fingerprints
        (observations.filterMap fun observation =>
          promptPrefixFingerprint observation stablePrefixLength)
      totalObservations := observations.length }

/-! ### Fingerprints of profiles -/

def PromptBlock.isScaffold (block : PromptBlock) : Bool :=
  block.role = .system || block.contentType = .toolSchema || block.contentType = .structuredOutput

def profilePrefixFingerprint (observation : PromptIR) (prefixLength : Nat) (learningKey : String) :
    Option String := do
  let prefixFingerprint ← promptPrefixFingerprint observation prefixLength
  let scaffoldLength := (observation.blocks.takeWhile PromptBlock.isScaffold).length
  let requestFingerprint ←
    if scaffoldLength < prefixLength then observation.sourceRequestHash else some "stable-scaffold"
  return sha256Hex ("\n".intercalate [learningKey, prefixFingerprint, requestFingerprint])

def dominantProfilePrefixFingerprint (order : String → Nat) (observations : List PromptIR)
    (prefixLength : Nat) (learningKey : String) : Option String :=
  dominantFingerprint order (observations.filterMap fun observation =>
    profilePrefixFingerprint observation prefixLength learningKey)

end Analyze

/-! ### What the table of spans contains -/

variable {observations observations' : List PromptIR}

open OrderedMap

section Summary

variable [Canonicalization]

/-- The blocks of a span, through the window. -/
def blocksOfSpan (observations : List PromptIR) (spanId : String) : List PromptBlock :=
  (observations.flatMap PromptIR.blocks).filter fun block => block.spanId = spanId

def PromptIR.hasSpan (spanId : String) (observation : PromptIR) : Bool :=
  observation.blocks.any fun block => block.spanId = spanId

/-- The entry of a span with these blocks: the tally of their contents, the number of observations
that contain the span, and its least index. -/
def summarize (blocks : List PromptBlock) (presentCount : Nat) : Option SpanObservations :=
  if blocks = [] then none
  else
    some { hashCounts := tally (blocks.map fun block => sha256Hex block.content)
           presentCount := presentCount
           firstSeenSequenceIndex := (blocks.map PromptBlock.sequenceIndex).min?.getD 0 }

/-- What the analysis knows about a span. -/
def spanSummary (observations : List PromptIR) (spanId : String) : Option SpanObservations :=
  summarize (blocksOfSpan observations spanId) (observations.countP (PromptIR.hasSpan spanId))

theorem get_foldl_recordBlockObservation (blocks : List PromptBlock) (spans : SpanMap)
    (spanId : String) :
    (blocks.foldl recordBlockObservation spans).get spanId =
      (blocks.filter fun block => block.spanId = spanId).foldl
        (fun entry block => some (observeBlock entry block)) (spans.get spanId) := by
  induction blocks generalizing spans with
  | nil => rfl
  | cons block blocks ih =>
    rw [foldl_cons, ih]
    obtain rfl | hne := eq_or_ne spanId block.spanId
    · simp [recordBlockObservation]
    · simp [recordBlockObservation, get_insert_of_ne _ _ hne, hne.symm]

omit [Canonicalization] in
theorem get_incrementPresentCounts {seen : List String} (hnodup : seen.Nodup) (spans : SpanMap)
    (spanId : String) :
    (incrementPresentCounts spans seen).get spanId =
      if spanId ∈ seen then (spans.get spanId).map SpanObservations.incrementPresent
      else spans.get spanId := by
  induction seen generalizing spans with
  | nil => rfl
  | cons first seen ih =>
    rw [nodup_cons] at hnodup
    rw [incrementPresentCounts, foldl_cons, ← incrementPresentCounts, ih hnodup.2]
    obtain rfl | hne := eq_or_ne spanId first
    · rw [if_neg hnodup.1, if_pos mem_cons_self]
      cases hget : spans.get spanId with
      | none => simp [hget]
      | some entry => simp
    · have hkeep : (match spans.get first with
          | some entry => spans.insert first entry.incrementPresent
          | none => spans).get spanId = spans.get spanId := by
        cases spans.get first with
        | none => rfl
        | some entry => exact get_insert_of_ne _ _ hne
      rw [hkeep]
      simp [hne]

/-- What one observation does to the entry of a span. -/
theorem get_recordObservation (order : String → Nat) (spans : SpanMap) (observation : PromptIR)
    (spanId : String) :
    (recordObservation order spans observation).get spanId =
      if observation.hasSpan spanId then
        ((observation.blocks.filter fun block => block.spanId = spanId).foldl
          (fun entry block => some (observeBlock entry block)) (spans.get spanId)).map
            SpanObservations.incrementPresent
      else spans.get spanId := by
  have hseen := get_foldl_insert (fun _ => ()) (observation.blocks.map (·.spanId)) .empty spanId
  rw [foldl_map] at hseen
  rw [recordObservation, get_incrementPresentCounts, get_foldl_recordBlockObservation]
  · have hmem : spanId ∈ ((observation.blocks.foldl (fun seen block =>
        seen.insert block.spanId ()) (.empty : OrderedMap String Unit)).iterate order).map
          Prod.fst ↔ observation.hasSpan spanId = true := by
      simp only [mem_map, OrderedMap.mem_iterate, Prod.exists,
        exists_and_right, exists_eq_right, hseen, PromptIR.hasSpan]
      split <;> simp_all
    by_cases hspan : observation.hasSpan spanId = true
    · rw [if_pos (hmem.mpr hspan), if_pos hspan]
    · rw [if_neg fun h => hspan (hmem.mp h), if_neg hspan]
      have hnone : (observation.blocks.filter fun block => block.spanId = spanId) = [] := by
        simpa [PromptIR.hasSpan] using hspan
      rw [hnone]
      rfl
  · exact iterate_keys_nodup _ _

variable {blocks : List PromptBlock}

theorem observeBlock_summarize {presentCount : Nat}
    (h : blocks = [] → presentCount = 0) (block : PromptBlock) :
    some (observeBlock (summarize blocks presentCount) block) =
      summarize (blocks ++ [block]) presentCount := by
  cases blocks with
  | nil => simp [summarize, observeBlock, h rfl, tally]
  | cons first blocks =>
    simp [summarize, observeBlock, tally, List.min?]

theorem foldl_observeBlock_summarize (added : List PromptBlock)
    {presentCount : Nat} (h : blocks = [] → presentCount = 0) :
    added.foldl (fun entry block => some (observeBlock entry block))
      (summarize blocks presentCount) = summarize (blocks ++ added) presentCount := by
  induction added generalizing blocks with
  | nil => simp
  | cons block added ih =>
    rw [foldl_cons, observeBlock_summarize h, ih (by simp), append_assoc,
      singleton_append]

omit [Canonicalization] in
theorem hasSpan_iff {observation : PromptIR} {spanId : String} :
    observation.hasSpan spanId = true ↔ blocksOfSpan [observation] spanId ≠ [] := by
  simp [PromptIR.hasSpan, blocksOfSpan, filter_eq_nil_iff]

theorem spanSummary_concat (observations : List PromptIR) (observation : PromptIR)
    (order : String → Nat) (spans : SpanMap) (spanId : String)
    (h : spans.get spanId = spanSummary observations spanId) :
    (recordObservation order spans observation).get spanId =
      spanSummary (observations ++ [observation]) spanId := by
  have hblocks : blocksOfSpan (observations ++ [observation]) spanId =
      blocksOfSpan observations spanId ++ blocksOfSpan [observation] spanId := by
    simp [blocksOfSpan]
  have hcount : blocksOfSpan observations spanId = [] →
      observations.countP (PromptIR.hasSpan spanId) = 0 := by
    intro hempty
    rw [countP_eq_zero]
    intro other hother hspan
    obtain ⟨block, hblock, hid⟩ := any_eq_true.mp hspan
    have : block ∈ blocksOfSpan observations spanId := by
      simp only [blocksOfSpan, mem_filter, mem_flatMap]
      exact ⟨⟨other, hother, hblock⟩, hid⟩
    rw [hempty] at this
    cases this
  rw [get_recordObservation, h, spanSummary, spanSummary, hblocks]
  have hown : (observation.blocks.filter fun block => block.spanId = spanId) =
      blocksOfSpan [observation] spanId := by
    simp [blocksOfSpan]
  by_cases hspan : observation.hasSpan spanId = true
  · rw [hown, foldl_observeBlock_summarize _ hcount]
    have hne : blocksOfSpan observations spanId ++ blocksOfSpan [observation] spanId ≠ [] := by
      simp [hasSpan_iff.mp hspan]
    simp [summarize, hne, hspan, SpanObservations.incrementPresent]
  · rw [not_not.mp (mt hasSpan_iff.mpr hspan)]
    simp [hspan]

/-- The table of spans after a window is its summary. -/
theorem get_spanMap (orders : Orders) (observations : List PromptIR) (spanId : String) :
    (spanMap orders observations).get spanId = spanSummary observations spanId := by
  induction observations using List.reverseRecOn with
  | nil => rfl
  | append_singleton observations last ih =>
    rw [spanMap, zipIdx_append, foldl_append]
    exact spanSummary_concat observations last _ _ spanId ih

theorem spanSummary_perm (h : observations.Perm observations') (spanId : String) :
    spanSummary observations spanId = spanSummary observations' spanId := by
  have hblocks : (blocksOfSpan observations spanId).Perm (blocksOfSpan observations' spanId) :=
    (h.flatMap_right _).filter _
  have hindices := hblocks.map PromptBlock.sequenceIndex
  have hmin : ((blocksOfSpan observations spanId).map PromptBlock.sequenceIndex).min? =
      ((blocksOfSpan observations' spanId).map PromptBlock.sequenceIndex).min? := by
    apply Option.ext
    intro n
    simp only [min?_eq_some_iff, hindices.mem_iff]
  rw [spanSummary, spanSummary, summarize, summarize, hmin, h.countP_eq, tally_perm (hblocks.map _)]
  simp only [← List.isEmpty_iff, hblocks.isEmpty_eq]

end Summary

/-! ### Independence of orders -/

section Perm

theorem length_le_longest {observation : PromptIR} (h : observation ∈ observations) :
    observation.blocks.length ≤ longest observations :=
  le_max_of_le' 0 (mem_map_of_mem h) le_rfl

variable (order order' : Nat → String → Nat)

theorem descend_perm {required : Nat} (fuel depth : Nat) {members members' : List PromptIR}
    (hperm : members.Perm members') (h : members.length < 2 * required) :
    descend order required fuel depth members = descend order' required fuel depth members' := by
  induction fuel generalizing depth members members' with
  | zero => rfl
  | succ fuel ih =>
    have hentries : (childEntries depth members).Perm (childEntries depth members') :=
      hperm.filterMap _
    have hlength : (childEntries depth members).length < 2 * required :=
      (length_filterMap_le _ _).trans_lt h
    have hdominant := @dominant_perm _ _ _ _ (order depth) _ (order' depth) _ hentries hlength
    rw [descend, descend]
    generalize hfirst : dominant (order depth) required (childEntries depth members) = first
      at hdominant ⊢
    generalize dominant (order' depth) required (childEntries depth members') = second
      at hdominant ⊢
    cases hdominant with
    | none => rfl
    | some hchild =>
      obtain ⟨key, rfl, -⟩ := (dominant_eq_some hlength).mp hfirst
      exact ih (depth + 1) hchild ((length_members_le _ _).trans_lt hlength)

theorem lt_two_mul_requiredShare {R : Type} [Score R] (total : Nat) (threshold : R) :
    total < 2 * requiredShare total threshold := by
  have : total / 2 + 1 ≤ requiredShare total threshold := le_max_left _ _
  omega

theorem dominantPrefixLength_perm {R : Type} [Score R] (h : observations.Perm observations')
    (threshold : R) :
    dominantPrefixLength order observations threshold =
      dominantPrefixLength order' observations' threshold := by
  have hlongest : longest observations = longest observations' :=
    (h.map _).foldr_eq (f := max) 0
  rw [dominantPrefixLength, dominantPrefixLength, ← h.length_eq, ← hlongest]
  exact descend_perm order order' _ _ h (lt_two_mul_requiredShare _ _)

variable (order order' : String → Nat)

theorem dominantFingerprint_perm
    {fingerprints fingerprints' : List String} (h : fingerprints.Perm fingerprints') :
    dominantFingerprint order fingerprints = dominantFingerprint order' fingerprints' := by
  rw [dominantFingerprint, dominantFingerprint, ← tally_perm h]
  congr 1
  refine lastMax_perm ((iterate_perm order _).trans (iterate_perm order' _).symm) ?_
  -- The key holds the whole entry.
  rintro ⟨digest, count⟩ - ⟨digest', count'⟩ - hkey
  have hpair := Prod.mk.inj (toLex.injective hkey)
  exact Prod.ext (OrderDual.toDual.injective hpair.2) hpair.1

variable {R : Type} [Score R]

theorem buildStabilityScore_order (spanId : String)
    (observations : SpanObservations) (total : Nat) (thresholds : StabilityThresholds R) :
    buildStabilityScore order spanId observations total thresholds =
      buildStabilityScore order' spanId observations total thresholds := by
  have hmax := (((iterate_perm order observations.hashCounts).trans
    (iterate_perm order' observations.hashCounts).symm).map Prod.snd).foldr_eq (f := max) 0
  simp only [buildStabilityScore, effectiveStabilityScore, hmax]

variable {indexed : List (Nat × BlockStabilityScore R)}

omit [Score R] in
theorem nodup_scoreKey (hnodup : (indexed.map fun entry => entry.2.spanId).Nodup) :
    (indexed.map scoreKey).Nodup := by
  refine .of_map (fun key => (ofLex (ofLex key).2).2) ?_
  rwa [map_map]

omit [Score R] in
/-- Spans differ, so the key of a score determines it. -/
theorem canonicalScores_perm {indexed' : List (Nat × BlockStabilityScore R)}
    (h : indexed.Perm indexed') (hnodup : (indexed.map fun entry => entry.2.spanId).Nodup) :
    canonicalScores indexed = canonicalScores indexed' := by
  have hkeys := nodup_scoreKey hnodup
  have hkeys' : (indexed'.map scoreKey).Nodup := (h.map scoreKey).nodup_iff.mp hkeys
  rw [canonicalScores, canonicalScores]
  congr 1
  refine eq_of_pairwise_lt scoreKey (pairwise_sortByKey_lt scoreKey hkeys)
    (pairwise_sortByKey_lt scoreKey hkeys') ?_
  intro entry
  rw [mem_sortByKey, mem_sortByKey, h.mem_iff]

variable [Canonicalization] (orders orders' : Orders) (thresholds : StabilityThresholds R)

theorem nodup_indexedScores (observations : List PromptIR) :
    ((indexedScores orders observations thresholds).map fun entry => entry.2.spanId).Nodup := by
  have hspans : ((indexedScores orders observations thresholds).map fun entry => entry.2.spanId) =
      ((spanMap orders observations).iterate orders.spans).map Prod.fst := by
    simp [indexedScores, buildStabilityScore]
  rw [hspans]
  exact iterate_keys_nodup _ _

theorem indexedScores_perm (h : observations.Perm observations') :
    (indexedScores orders observations thresholds).Perm
      (indexedScores orders' observations' thresholds) := by
  have hmap : spanMap orders observations = spanMap orders' observations' := by
    apply ext
    intro spanId
    rw [get_spanMap, get_spanMap, spanSummary_perm h]
  rw [indexedScores, indexedScores, hmap, ← h.length_eq,
    map_congr_left fun entry _ => buildStabilityScore_order _ (orders'.hashes entry.1) _ _ _ _]
  exact ((iterate_perm _ _).trans (iterate_perm _ _).symm).map _

/-- **Determinism**: the analysis depends neither on the order of the window nor on the order in
which the hash tables are iterated. -/
theorem analyzeStability_perm (orders orders' : Orders) (observations observations' : List PromptIR)
    (h : observations.Perm observations') (thresholds : StabilityThresholds R) :
    analyzeStability orders observations thresholds =
      analyzeStability orders' observations' thresholds := by
  have hlength := dominantPrefixLength_perm orders.children orders'.children h
    thresholds.stableThreshold
  have hscores := canonicalScores_perm (indexedScores_perm orders orders' thresholds h)
    (nodup_indexedScores orders thresholds observations)
  have hfingerprint := dominantFingerprint_perm orders.fingerprints orders'.fingerprints
    (h.filterMap fun observation => promptPrefixFingerprint observation
      (dominantPrefixLength orders.children observations thresholds.stableThreshold))
  rw [hlength] at hfingerprint
  simp only [analyzeStability, h.isEmpty_eq, hlength, hscores, h.length_eq, hfingerprint]

end Perm

/-- Two prompts in the two orders, and the spans iterated in two orders. -/
theorem analyzeStability_swap :
    letI := forgetful
    let first : PromptIR := ⟨[⟨"user-0", 0, .user, "a", .text, .user, none⟩], none, none, none⟩
    let second : PromptIR := ⟨[⟨"tool-0", 0, .tool, "b", .text, .tool, none⟩], none, none, none⟩
    [first, second].Perm [second, first] ∧
      analyzeStability (R := Rat) unranked [first, second] ⟨3 / 4, 1 / 2, 20⟩ =
        analyzeStability { unranked with spans := String.length } [second, first]
          ⟨3 / 4, 1 / 2, 20⟩ :=
  letI := forgetful
  ⟨.swap _ _ _, analyzeStability_perm _ _ _ _ (.swap _ _ _) _⟩

end NemoRelay.Acg
