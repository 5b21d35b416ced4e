import NemoRelay.Adaptive.Stability

/-!
# Pricing the stable prefix

The part of the breakpoint economics that walks the stability scores beside the blocks of a live
prompt, and stops at the first score that is not stable.
-/

namespace NemoRelay.Acg

def u32Max : Nat := 2 ^ 32 - 1

structure PrefixStats (R : Type) where
  cumulativeTokens : Nat
  weakestPrefixSignal : R

def estimateBlockTokens (block : PromptBlock) : Nat :=
  match block.tokenMetadata with
  | none => min (block.content.utf8ByteSize / 4) u32Max
  | some metadata => metadata.tokenCount

variable {R : Type} [Score R]

def prefixSignal (score confidence : R) : R :=
  Score.mul (Score.clampUnit score) (Score.clampUnit confidence)

/-- The loop of `build_prefix_stats`, with the tokens and the weakest signal so far. -/
def prefixStatsFrom (cumulativeTokens : Nat) (weakestPrefixSignal : R) :
    List PromptBlock → List (BlockStabilityScore R) → List (PrefixStats R)
  | block :: blocks, score :: scores =>
    if score.classification = .stable then
      let cumulativeTokens := min (cumulativeTokens + estimateBlockTokens block) u32Max
      let weakestPrefixSignal :=
        Score.least weakestPrefixSignal (prefixSignal score.score score.confidence)
      ⟨cumulativeTokens, weakestPrefixSignal⟩ ::
        prefixStatsFrom cumulativeTokens weakestPrefixSignal blocks scores
    else []
  | _, _ => []

variable (promptIr : PromptIR) (stability : StabilityAnalysisResult R)

/-- `build_prefix_stats`, for an end within the blocks of the prompt. -/
def buildPrefixStats (stablePrefixEnd : Nat) : List (PrefixStats R) :=
  prefixStatsFrom 0 (ofCount 1) promptIr.blocks (stability.scores.take stablePrefixEnd)

/-- The end that `plan_breakpoints` passes. -/
def stablePrefixEnd : Nat :=
  min stability.stablePrefixLength promptIr.blocks.length

def BlockStabilityScore.isStable (score : BlockStabilityScore R) : Bool :=
  score.classification = .stable

open BlockStabilityScore

theorem length_prefixStatsFrom (cumulativeTokens : Nat) (weakestPrefixSignal : R)
    (blocks : List PromptBlock) (scores : List (BlockStabilityScore R)) :
    (prefixStatsFrom cumulativeTokens weakestPrefixSignal blocks scores).length =
      min blocks.length (scores.takeWhile isStable).length := by
  induction scores generalizing blocks cumulativeTokens weakestPrefixSignal with
  | nil => cases blocks <;> simp [prefixStatsFrom]
  | cons score scores ih =>
    cases blocks with
    | nil => simp [prefixStatsFrom]
    | cons block blocks =>
      by_cases hstable : score.classification = .stable
      · simp [prefixStatsFrom, hstable, ih, isStable]
      · simp [prefixStatsFrom, hstable, isStable]

/-- The prefix that is priced is the run of stable scores within the end. -/
theorem length_buildPrefixStats (stablePrefixEnd : Nat) :
    (buildPrefixStats promptIr stability stablePrefixEnd).length =
      min promptIr.blocks.length
        ((stability.scores.take stablePrefixEnd).takeWhile isStable).length :=
  length_prefixStatsFrom _ _ _ _

variable {entry : PrefixStats R}

theorem getElem?_prefixStatsFrom {cumulativeTokens : Nat} {weakestPrefixSignal : R}
    {blocks : List PromptBlock} {scores : List (BlockStabilityScore R)} {k : Nat}
    (h : (prefixStatsFrom cumulativeTokens weakestPrefixSignal blocks scores)[k]? = some entry) :
    k < blocks.length ∧ k < scores.length ∧ entry.cumulativeTokens =
      min (cumulativeTokens + ((blocks.take (k + 1)).map estimateBlockTokens).sum) u32Max := by
  induction blocks generalizing cumulativeTokens weakestPrefixSignal scores k with
  | nil => simp [prefixStatsFrom] at h
  | cons block blocks ih =>
    cases scores with
    | nil => simp [prefixStatsFrom] at h
    | cons score scores =>
      rw [prefixStatsFrom] at h
      split at h
      · cases k with
        | zero =>
          cases h
          simp
        | succ k =>
          rw [List.getElem?_cons_succ] at h
          obtain ⟨hblocks, hscores, htokens⟩ := ih h
          refine ⟨by simpa using hblocks, by simpa using hscores, ?_⟩
          rw [List.take_succ_cons, List.map_cons, List.sum_cons]
          omega
      · simp at h

/-- The tokens of a prefix are those of its blocks, saturated. -/
theorem getElem?_buildPrefixStats {promptIr : PromptIR} {stability : StabilityAnalysisResult R}
    {stablePrefixEnd k : Nat}
    (h : (buildPrefixStats promptIr stability stablePrefixEnd)[k]? = some entry) :
    k < promptIr.blocks.length ∧ k < stability.scores.length ∧ entry.cumulativeTokens =
      min ((promptIr.blocks.take (k + 1)).map estimateBlockTokens).sum u32Max := by
  obtain ⟨hblocks, hscores, htokens⟩ := getElem?_prefixStatsFrom h
  rw [List.length_take] at hscores
  exact ⟨hblocks, by omega, by rw [htokens, Nat.zero_add]⟩

end NemoRelay.Acg
