import NemoRelay.Adaptive.Economics
import NemoRelay.Lib.Backtrace

/-!
# Planning breakpoints

Every block of the stable prefix that ends a long enough prefix can have a breakpoint. The planner
selects as many of them as the model allows, such that the expected savings are greatest: a table
holds, for each candidate and each number of breakpoints that end in it, the best value and the
candidate before. What it reports for debugging is left out.
-/

namespace NemoRelay.Acg

open Option (map_eq_some_iff mem_toList map_some)

open List

/-- What the planner does with prices, besides what it does with scores. -/
class Pricing (R : Type) extends Score R where
  add : R → R → R
  sub : R → R → R
  /-- `a < b` -/
  less : R → R → Bool
  infinity : R
  /-- `1e-9` -/
  tolerance : R

/-- Exact prices. No rational is infinite: what does not break even is reported as zero. -/
instance : Pricing Rat where
  add := (· + ·)
  sub := (· - ·)
  less a b := decide (a < b)
  infinity := 0
  tolerance := 1 / 10 ^ 9

/-! ### Capabilities -/

structure CacheEconomics (R : Type) where
  writeShortMultiplier : R
  writeLongMultiplier : Option R
  readMultiplier : R

structure ModelFamilyCapabilities (R : Type) where
  maxCacheBreakpoints : Option Nat
  minCacheableTokens : Option Nat
  cacheEconomics : Option (CacheEconomics R)

section Savings

variable {R : Type} [Pricing R]

open Score Pricing

def CacheEconomics.breakevenReads (pricing : CacheEconomics R) (writeMultiplier : R) : R :=
  let cachedReadDelta := sub (ofCount 1) pricing.readMultiplier
  if atLeast (ofCount 0) cachedReadDelta then infinity
  else div (sub writeMultiplier (ofCount 1)) cachedReadDelta

def CacheEconomics.marginalNetSavings (pricing : CacheEconomics R) (tokens : Nat)
    (expectedReads : R) : R :=
  let cachedReadDelta := sub (ofCount 1) pricing.readMultiplier
  let writeTax := sub pricing.writeShortMultiplier (ofCount 1)
  mul (ofCount tokens) (sub (mul cachedReadDelta expectedReads) writeTax)

end Savings

/-! ### Plans -/

inductive SharingScope
  | request
  | session
  | tenant
  | global

structure PlannedBreakpoint (R : Type) where
  stablePrefixEnd : Nat
  cumulativeTokens : Nat
  marginalTokens : Nat
  expectedReads : R
  expectedNetSavings : R
  scope : SharingScope

structure EconomicsPlan (R : Type) where
  plannedBreakpoints : List (PlannedBreakpoint R)
  minimumCacheableTokens : Nat
  observedReuseHorizon : R
  write5mBreakevenReads : R
  write1hBreakevenReads : R

/-! ### Candidates -/

inductive CandidateKind
  | user
  | toolCluster
  | retrieval
  | system
  | structured
  | generic

def CandidateKind.priority : CandidateKind → Nat
  | user => 5
  | toolCluster => 3
  | retrieval => 4
  | system => 2
  | structured => 1
  | generic => 0

structure BreakpointCandidate (R : Type) where
  stablePrefixEnd : Nat
  cumulativeTokens : Nat
  weakestPrefixSignal : R
  expectedReads : R
  kind : CandidateKind

/-- The last two branches of the source are the same, so that the end of the stable prefix is not
an argument. -/
def blockKind (block : PromptBlock) : CandidateKind :=
  if block.contentType = .toolSchema then .toolCluster
  else if block.provenance = .retrieval then .retrieval
  else if block.role = .user then .user
  else if block.contentType = .structuredOutput ∨ block.contentType = .toolResult ∨
      block.contentType = .image then .structured
  else if block.role = .system then .system
  else .generic

variable (promptIr : PromptIR)

/-- A tool schema before another one is no boundary, unless it crosses the threshold. -/
def classifyCandidateBoundary (index : Nat) (thresholdCrossing : Bool) :
    Option CandidateKind := do
  let block ← promptIr.blocks[index]?
  let nextIsToolSchema := promptIr.blocks[index + 1]?.any fun next =>
    next.contentType = .toolSchema
  if block.contentType = .toolSchema && nextIsToolSchema && !thresholdCrossing then none
  else some (blockKind block)

section Candidates

variable {R : Type} [Pricing R] (promptIr : PromptIR) (observedReuseHorizon : R)
  (minimumCacheableTokens : Nat)

/-- What the loop of `collect_breakpoint_candidates` adds for the prefix that ends at an index. -/
def boundaryCandidate (index previousCumulativeTokens : Nat) (stats : PrefixStats R) :
    Option (BreakpointCandidate R) :=
  if stats.cumulativeTokens < minimumCacheableTokens then none
  else
    (classifyCandidateBoundary promptIr index
      (previousCumulativeTokens < minimumCacheableTokens)).map fun kind =>
        { stablePrefixEnd := index + 1
          cumulativeTokens := stats.cumulativeTokens
          weakestPrefixSignal := stats.weakestPrefixSignal
          expectedReads := Score.mul observedReuseHorizon stats.weakestPrefixSignal
          kind }

/-- The loop of `collect_breakpoint_candidates`. -/
def candidatesFrom (index previousCumulativeTokens : Nat) :
    List (PrefixStats R) → List (BreakpointCandidate R)
  | [] => []
  | stats :: rest =>
    (boundaryCandidate promptIr observedReuseHorizon minimumCacheableTokens index
        previousCumulativeTokens stats).toList ++
      candidatesFrom (index + 1) stats.cumulativeTokens rest

def collectBreakpointCandidates (prefixStats : List (PrefixStats R)) (stablePrefixEnd : Nat) :
    List (BreakpointCandidate R) :=
  candidatesFrom promptIr observedReuseHorizon minimumCacheableTokens 0 0
    (prefixStats.take (min prefixStats.length stablePrefixEnd))

end Candidates

/-! ### Selection -/

structure CandidateSelectionState (R : Type) where
  totalValue : R
  previousCandidateIndex : Option Nat

/-- A row for each candidate, with a cell for each number of breakpoints. -/
abbrev SelectionTable (R : Type) := List (List (Option (CandidateSelectionState R)))

def SelectionTable.cell {R : Type} (dp : SelectionTable R) (index count : Nat) :
    Option (CandidateSelectionState R) := do
  let row ← dp[index]?
  (row[count]?).join

section Selection

variable {R : Type} [Pricing R] (pricing : CacheEconomics R)
  (candidates : List (BreakpointCandidate R))

open Score Pricing

def isBetterCandidateState (current : Option (CandidateSelectionState R))
    (proposal : CandidateSelectionState R) : Bool :=
  match current with
  | none => true
  | some current =>
    if less (add current.totalValue tolerance) proposal.totalValue then true
    else if less (add proposal.totalValue tolerance) current.totalValue then false
    else
      match current.previousCandidateIndex, proposal.previousCandidateIndex with
      | none, some _ => true
      | some current, some proposal => current < proposal
      | _, none => false

def seedCandidateSelectionState (candidate : BreakpointCandidate R) :
    Option (CandidateSelectionState R) :=
  let baseValue := pricing.marginalNetSavings candidate.cumulativeTokens candidate.expectedReads
  if less (ofCount 0) baseValue then some ⟨baseValue, none⟩ else none

variable (dp : SelectionTable R)

def candidateExtensionProposal (candidate : BreakpointCandidate R)
    (breakpointCount previousIndex : Nat) : Option (CandidateSelectionState R) := do
  let previousState ← dp.cell previousIndex (breakpointCount - 1)
  let previous ← candidates[previousIndex]?
  let marginalTokens := candidate.cumulativeTokens - previous.cumulativeTokens
  if marginalTokens = 0 then none
  else
    let segmentValue := pricing.marginalNetSavings marginalTokens candidate.expectedReads
    if atLeast (ofCount 0) segmentValue then none
    else some ⟨add previousState.totalValue segmentValue, some previousIndex⟩

/-- The inner loop of `extend_candidate_selection_state`, for one cell of the row after `dp`. -/
def extendCandidateSelectionState (candidate : BreakpointCandidate R) (breakpointCount : Nat) :
    Option (CandidateSelectionState R) :=
  (List.range dp.length).foldl (fun current previousIndex =>
    match candidateExtensionProposal pricing candidates dp candidate breakpointCount
        previousIndex with
    | none => current
    | some proposal => if isBetterCandidateState current proposal then some proposal else current)
    none

variable (maxBreakpoints : Nat)

/-- The row of the candidate after those of `dp`. Its cells depend on earlier rows only. -/
def candidateSelectionRow (dp : SelectionTable R) (candidate : BreakpointCandidate R) :
    List (Option (CandidateSelectionState R)) :=
  (List.range (maxBreakpoints + 1)).map fun
    | 0 => none
    | 1 => seedCandidateSelectionState pricing candidate
    | count + 2 =>
      if count + 2 ≤ dp.length + 1 then
        extendCandidateSelectionState pricing candidates dp candidate (count + 2)
      else none

def populateCandidateSelectionDp : SelectionTable R :=
  candidates.foldl
    (fun dp candidate =>
      dp ++ [candidateSelectionRow pricing candidates maxBreakpoints dp candidate])
    []

/-- A filled cell of the table, with its candidate and its number of breakpoints. -/
structure Terminal (R : Type) where
  candidateIndex : Nat
  breakpointCount : Nat
  state : CandidateSelectionState R

def isBetterTerminalState (current : Option (Terminal R)) (proposal : Terminal R) : Bool :=
  match current with
  | none => true
  | some current =>
    if less (add current.state.totalValue tolerance) proposal.state.totalValue then true
    else if less (add proposal.state.totalValue tolerance) current.state.totalValue then false
    else if proposal.breakpointCount < current.breakpointCount then true
    else if proposal.breakpointCount > current.breakpointCount then false
    else
      match candidates[proposal.candidateIndex]?, candidates[current.candidateIndex]? with
      | some proposed, some best =>
        if proposed.kind.priority > best.kind.priority then true
        else if proposed.kind.priority < best.kind.priority then false
        else proposed.stablePrefixEnd > best.stablePrefixEnd
      | _, _ => false

/-- The filled cells, in the order of the loops. -/
def terminals : List (Terminal R) :=
  dp.zipIdx.flatMap fun row =>
    (row.1.zipIdx.drop 1).filterMap fun cell =>
      cell.1.map fun state => ⟨row.2, cell.2, state⟩

def bestTerminalCandidate : Option (Terminal R) :=
  (terminals dp).foldl (fun best terminal =>
    if isBetterTerminalState candidates best terminal then some terminal else best) none

/-- The source panics at a cell that is not filled. The table has none on the way back, by
`sound_populateCandidateSelectionDp`. -/
def reconstructSelectedCandidates (candidateIndex breakpointCount : Nat) : List Nat :=
  Backtrace.path (fun index count => (dp.cell index count).map (·.previousCandidateIndex))
    breakpointCount candidateIndex

def selectBreakpointCandidates : Option (List Nat) :=
  if candidates.isEmpty || maxBreakpoints = 0 then none
  else
    let dp := populateCandidateSelectionDp pricing candidates maxBreakpoints
    (bestTerminalCandidate candidates dp).map fun best =>
      reconstructSelectedCandidates dp best.candidateIndex best.breakpointCount

/-- The loop of `append_selected_breakpoints`. -/
def selectedBreakpoints (previousCumulativeTokens : Nat) : List Nat → List (PlannedBreakpoint R)
  | [] => []
  | index :: rest =>
    match candidates[index]? with
    | none => selectedBreakpoints previousCumulativeTokens rest
    | some candidate =>
      let marginalTokens := candidate.cumulativeTokens - previousCumulativeTokens
      let expectedNetSavings := pricing.marginalNetSavings marginalTokens candidate.expectedReads
      if atLeast (ofCount 0) expectedNetSavings || marginalTokens = 0 then
        selectedBreakpoints previousCumulativeTokens rest
      else
        { stablePrefixEnd := candidate.stablePrefixEnd
          cumulativeTokens := candidate.cumulativeTokens
          marginalTokens
          expectedReads := candidate.expectedReads
          expectedNetSavings
          scope := .session } :: selectedBreakpoints candidate.cumulativeTokens rest

end Selection

/-! ### The plan -/

section Plan

variable {R : Type} [Pricing R]

open Score Pricing

def buildEconomicsPlan (pricing : CacheEconomics R) (minimumCacheableTokens : Nat)
    (observedReuseHorizon : R) (plannedBreakpoints : List (PlannedBreakpoint R)) :
    EconomicsPlan R where
  plannedBreakpoints
  minimumCacheableTokens
  observedReuseHorizon
  write5mBreakevenReads := pricing.breakevenReads pricing.writeShortMultiplier
  write1hBreakevenReads := (pricing.writeLongMultiplier.map pricing.breakevenReads).getD infinity

/-- No reason to skip the planning. -/
def worthPlanning (observedReuseHorizon : R)
    (maxBreakpoints stablePrefixLength minimumCacheableTokens : Nat) : Bool :=
  !atLeast (ofCount 0) observedReuseHorizon && maxBreakpoints ≠ 0 && stablePrefixLength ≠ 0 &&
    minimumCacheableTokens ≠ u32Max

/-- The breakpoints of a plan with prices. -/
def profitableBreakpoints (stability : StabilityAnalysisResult R) (pricing : CacheEconomics R)
    (observedReuseHorizon : R) (minimumCacheableTokens maxBreakpoints : Nat) :
    List (PlannedBreakpoint R) :=
  if worthPlanning observedReuseHorizon maxBreakpoints stability.stablePrefixLength
      minimumCacheableTokens then
    let stablePrefixEnd := stablePrefixEnd promptIr stability
    let candidates := collectBreakpointCandidates promptIr observedReuseHorizon
      minimumCacheableTokens (buildPrefixStats promptIr stability stablePrefixEnd) stablePrefixEnd
    match selectBreakpointCandidates pricing candidates maxBreakpoints with
    | none => []
    | some selected => selectedBreakpoints pricing candidates 0 selected
  else []

def planBreakpoints (stability : StabilityAnalysisResult R) (observationCount : Nat)
    (capabilities : ModelFamilyCapabilities R) : EconomicsPlan R :=
  let observedReuseHorizon := ofCount (observationCount - 1)
  let minimumCacheableTokens := capabilities.minCacheableTokens.getD u32Max
  let maxBreakpoints := capabilities.maxCacheBreakpoints.getD 0
  match capabilities.cacheEconomics with
  | none =>
    { plannedBreakpoints := []
      minimumCacheableTokens
      observedReuseHorizon
      write5mBreakevenReads := infinity
      write1hBreakevenReads := infinity }
  | some pricing =>
    buildEconomicsPlan pricing minimumCacheableTokens observedReuseHorizon
      (profitableBreakpoints promptIr stability pricing observedReuseHorizon minimumCacheableTokens
        maxBreakpoints)

end Plan

/-! ### What a candidate is -/

variable {previousCumulativeTokens index : Nat}

section CandidateSpec

variable {R : Type} [Pricing R] {promptIr : PromptIR} {observedReuseHorizon : R}
  {minimumCacheableTokens : Nat} {candidate : BreakpointCandidate R}

theorem boundaryCandidate_eq_some {stats : PrefixStats R}
    (h : boundaryCandidate promptIr observedReuseHorizon minimumCacheableTokens index
      previousCumulativeTokens stats = some candidate) :
    minimumCacheableTokens ≤ stats.cumulativeTokens ∧ candidate.stablePrefixEnd = index + 1 ∧
      candidate.cumulativeTokens = stats.cumulativeTokens := by
  unfold boundaryCandidate at h
  split at h
  · cases h
  · next hsize =>
    obtain ⟨kind, -, rfl⟩ := map_eq_some_iff.mp h
    exact ⟨Nat.le_of_not_lt hsize, rfl, rfl⟩

variable {stats : List (PrefixStats R)}

theorem mem_candidatesFrom
    (h : candidate ∈ candidatesFrom promptIr observedReuseHorizon minimumCacheableTokens index
      previousCumulativeTokens stats) :
    ∃ k entry, stats[k]? = some entry ∧ minimumCacheableTokens ≤ entry.cumulativeTokens ∧
      candidate.stablePrefixEnd = index + k + 1 ∧
      candidate.cumulativeTokens = entry.cumulativeTokens := by
  induction stats generalizing index previousCumulativeTokens with
  | nil => cases h
  | cons first rest ih =>
    rw [candidatesFrom, mem_append, mem_toList] at h
    obtain h | h := h
    · obtain ⟨hsize, hend, htokens⟩ := boundaryCandidate_eq_some h
      exact ⟨0, first, rfl, hsize, hend, htokens⟩
    · obtain ⟨k, entry, hentry, hsize, hend, htokens⟩ := ih h
      exact ⟨k + 1, entry, hentry, hsize, by omega, htokens⟩

/-- The candidates stand in the order of their prefixes. -/
theorem pairwise_candidatesFrom (index previousCumulativeTokens : Nat)
    (stats : List (PrefixStats R)) :
    (candidatesFrom promptIr observedReuseHorizon minimumCacheableTokens index
      previousCumulativeTokens stats).Pairwise fun a b =>
        a.stablePrefixEnd < b.stablePrefixEnd := by
  induction stats generalizing index previousCumulativeTokens with
  | nil => exact List.Pairwise.nil
  | cons first rest ih =>
    refine pairwise_append.mpr ⟨?_, ih _ _, ?_⟩
    · cases boundaryCandidate promptIr observedReuseHorizon minimumCacheableTokens index
        previousCumulativeTokens first <;> simp
    · intro a ha b hb
      obtain ⟨-, hend, -⟩ := boundaryCandidate_eq_some (mem_toList.mp ha)
      obtain ⟨k, -, -, -, hend', -⟩ := mem_candidatesFrom hb
      omega

/-- A candidate ends a priced prefix of at least the minimal size. -/
theorem candidate_of_mem {stablePrefixEnd : Nat}
    (h : candidate ∈ collectBreakpointCandidates promptIr observedReuseHorizon
      minimumCacheableTokens stats stablePrefixEnd) :
    ∃ k entry, stats[k]? = some entry ∧ minimumCacheableTokens ≤ entry.cumulativeTokens ∧
      candidate.stablePrefixEnd = k + 1 ∧ candidate.cumulativeTokens = entry.cumulativeTokens := by
  obtain ⟨k, entry, hentry, hsize, hend, htokens⟩ := mem_candidatesFrom h
  refine ⟨k, entry, ?_, hsize, by omega, htokens⟩
  rw [getElem?_take] at hentry
  split at hentry
  · exact hentry
  · cases hentry

end CandidateSpec

/-! ### What the table holds -/

variable {selected : List Nat}

section Table

variable {R : Type} {dp : SelectionTable R} {row : List (Option (CandidateSelectionState R))}

open SelectionTable

theorem cell_concat_of_lt (h : index < dp.length) (count : Nat) :
    cell (dp ++ [row]) index count = cell dp index count := by
  rw [cell, cell, getElem?_append_left h]

theorem cell_concat_length (count : Nat) :
    cell (dp ++ [row]) dp.length count = (row[count]?).join := by
  simp [cell]

variable {state : CandidateSelectionState R}

theorem lt_length_of_cell {count : Nat} (h : cell dp index count = some state) :
    index < dp.length := by
  obtain ⟨row, hrow, -⟩ := Option.bind_eq_some_iff.mp h
  exact (List.getElem?_eq_some_iff.mp hrow).1

/-- The pointers of a table. -/
def SelectionTable.back (dp : SelectionTable R) (index count : Nat) : Option (Option Nat) :=
  (dp.cell index count).map (·.previousCandidateIndex)

/-- A table that can be traced back, with numbers of breakpoints up to a limit. -/
structure SelectionTable.Sound (dp : SelectionTable R) (maxBreakpoints : Nat) : Prop where
  trace : Backtrace.Sound dp.back
  count_le : ∀ {index count state}, dp.cell index count = some state → count ≤ maxBreakpoints

/-- What a row after a table may hold. -/
def RowSound (dp : SelectionTable R) (maxBreakpoints : Nat)
    (row : List (Option (CandidateSelectionState R))) : Prop :=
  ∀ {count state}, (row[count]?).join = some state → count ≤ maxBreakpoints ∧
    match state.previousCandidateIndex with
    | none => count = 1
    | some j => ∃ before, count = before + 2 ∧ j < dp.length ∧ (dp.back j (before + 1)).isSome

variable {maxBreakpoints : Nat}

theorem SelectionTable.Sound.concat (h : dp.Sound maxBreakpoints)
    (hrow : RowSound dp maxBreakpoints row) : Sound (dp ++ [row]) maxBreakpoints := by
  have hcell : ∀ {index count state}, cell (dp ++ [row]) index count = some state →
      (index < dp.length ∧ dp.cell index count = some state) ∨
        (index = dp.length ∧ (row[count]?).join = some state) := by
    intro index count state hstate
    have hlt := lt_length_of_cell hstate
    rw [length_append, length_singleton] at hlt
    obtain hlt | rfl : index < dp.length ∨ index = dp.length := by omega
    · exact .inl ⟨hlt, by rwa [cell_concat_of_lt hlt] at hstate⟩
    · exact .inr ⟨rfl, by rwa [cell_concat_length] at hstate⟩
  have hback : ∀ {j count}, j < dp.length → (dp.back j count).isSome →
      (back (dp ++ [row]) j count).isSome := by
    intro j count hj hsome
    rwa [back, cell_concat_of_lt hj]
  refine ⟨⟨?_, ?_⟩, ?_⟩
  · intro index count hnone
    obtain ⟨state, hstate, hprevious⟩ := map_eq_some_iff.mp hnone
    obtain ⟨-, hold⟩ | ⟨-, hnew⟩ := hcell hstate
    · exact h.trace.first (by rw [back, hold, map_some, hprevious])
    · have hspec := (hrow hnew).2
      rwa [hprevious] at hspec
  · intro index count j hsome
    obtain ⟨state, hstate, hprevious⟩ := map_eq_some_iff.mp hsome
    obtain ⟨hlt, hold⟩ | ⟨rfl, hnew⟩ := hcell hstate
    · obtain ⟨before, hcount, hj, hfilled⟩ :=
        h.trace.later (by rw [back, hold, map_some, hprevious])
      exact ⟨before, hcount, hj, hback (hj.trans hlt) hfilled⟩
    · have hspec := (hrow hnew).2
      rw [hprevious] at hspec
      obtain ⟨before, hcount, hj, hfilled⟩ := hspec
      exact ⟨before, hcount, hj, hback hj hfilled⟩
  · intro index count state hstate
    obtain ⟨-, hold⟩ | ⟨-, hnew⟩ := hcell hstate
    · exact h.count_le hold
    · exact (hrow hnew).1

variable [Pricing R] {pricing : CacheEconomics R} {candidates : List (BreakpointCandidate R)}
  {candidate : BreakpointCandidate R}

theorem candidateExtensionProposal_eq_some {count previousIndex : Nat}
    (h : candidateExtensionProposal pricing candidates dp candidate count previousIndex = some
      state) :
    state.previousCandidateIndex = some previousIndex ∧
      (dp.back previousIndex (count - 1)).isSome := by
  simp only [candidateExtensionProposal, bind, Option.bind_eq_some_iff] at h
  obtain ⟨previousState, hprevious, previous, -, h⟩ := h
  split at h
  · cases h
  split at h
  · cases h
  cases h
  exact ⟨rfl, by simp [back, hprevious]⟩

/-- A cell that is filled by extension points to a filled cell of an earlier row. -/
theorem extendCandidateSelectionState_eq_some {count : Nat}
    (h : extendCandidateSelectionState pricing candidates dp candidate count = some state) :
    ∃ j < dp.length, state.previousCandidateIndex = some j ∧ (dp.back j (count - 1)).isSome := by
  -- the property holds of every state that the loop keeps
  refine List.foldlRecOn (motive := fun current => ∀ state, current = some state → ∃ j < dp.length,
    state.previousCandidateIndex = some j ∧ (dp.back j (count - 1)).isSome) _ _ nofun ?_ state h
  intro current hcurrent index hindex
  cases hproposal : candidateExtensionProposal pricing candidates dp candidate count index with
  | none => exact hcurrent
  | some proposal =>
    intro state hstate
    dsimp only at hstate
    split at hstate
    · cases hstate
      exact ⟨index, mem_range.mp hindex, candidateExtensionProposal_eq_some hproposal⟩
    · exact hcurrent state hstate

theorem rowSound_candidateSelectionRow (maxBreakpoints : Nat) (candidate : BreakpointCandidate R) :
    RowSound dp maxBreakpoints
      (candidateSelectionRow pricing candidates maxBreakpoints dp candidate) := by
  intro count state hstate
  rw [candidateSelectionRow, getElem?_map, Option.join_eq_some_iff,
    map_eq_some_iff] at hstate
  obtain ⟨_, hrange, hcell⟩ := hstate
  obtain ⟨hlt, rfl⟩ := List.getElem?_eq_some_iff.mp hrange
  rw [length_range] at hlt
  rw [getElem_range] at hcell
  refine ⟨by omega, ?_⟩
  match count, hcell with
  | 1, hcell =>
    dsimp only [seedCandidateSelectionState] at hcell
    split at hcell
    · cases hcell
      rfl
    · cases hcell
  | count + 2, hcell =>
    dsimp only at hcell
    split at hcell
    · obtain ⟨j, hj, hprevious, hfilled⟩ := extendCandidateSelectionState_eq_some hcell
      rw [hprevious]
      exact ⟨count, rfl, hj, hfilled⟩
    · cases hcell

/-- The table can be traced back, whatever the prices. -/
theorem sound_populateCandidateSelectionDp (maxBreakpoints : Nat) :
    (populateCandidateSelectionDp pricing candidates maxBreakpoints).Sound maxBreakpoints := by
  have hempty : Sound ([] : SelectionTable R) maxBreakpoints := by
    refine ⟨⟨?_, ?_⟩, ?_⟩ <;> simp [back, cell]
  refine List.foldlRecOn (motive := fun dp => Sound dp maxBreakpoints) candidates _ hempty ?_
  exact fun dp hdp candidate _ =>
    hdp.concat (rowSound_candidateSelectionRow maxBreakpoints candidate)

variable {terminal : Terminal R}

omit [Pricing R] in
theorem mem_terminals (h : terminal ∈ terminals dp) :
    dp.cell terminal.candidateIndex terminal.breakpointCount = some terminal.state := by
  obtain ⟨⟨row, index⟩, hrow, hcell⟩ := mem_flatMap.mp h
  obtain ⟨⟨cell, count⟩, hmem, hmap⟩ := mem_filterMap.mp hcell
  obtain ⟨state, hstate, rfl⟩ := map_eq_some_iff.mp hmap
  dsimp only at hstate
  subst hstate
  have hrow' : dp[index]? = some row := mem_zipIdx_iff_getElem?.mp hrow
  have hcell' : row[count]? = some (some state) :=
    mem_zipIdx_iff_getElem?.mp (mem_of_mem_drop hmem)
  simp [cell, hrow', hcell']

theorem mem_of_bestTerminalCandidate
    (h : bestTerminalCandidate candidates dp = some terminal) : terminal ∈ terminals dp := by
  refine List.foldlRecOn (motive := fun best => ∀ terminal, best = some terminal → terminal ∈
    terminals dp) _ _ (by simp) ?_ terminal h
  intro best hbest item hitem terminal hterminal
  split at hterminal
  · cases hterminal
    exact hitem
  · exact hbest terminal hterminal

/-- A selection is an increasing list of candidates, as many as allowed at most. -/
theorem selectBreakpointCandidates_eq_some
    (h : selectBreakpointCandidates pricing candidates maxBreakpoints = some selected) :
    selected.length ≤ maxBreakpoints ∧ selected.Pairwise (· < ·) := by
  unfold selectBreakpointCandidates at h
  split at h
  · cases h
  obtain ⟨best, hbest, rfl⟩ := map_eq_some_iff.mp h
  have hcell := mem_terminals (mem_of_bestTerminalCandidate hbest)
  have hsound : (populateCandidateSelectionDp pricing candidates maxBreakpoints).Sound
      maxBreakpoints := sound_populateCandidateSelectionDp maxBreakpoints
  have hfilled : ((populateCandidateSelectionDp pricing candidates maxBreakpoints).back
      best.candidateIndex best.breakpointCount).isSome := by
    rw [back, hcell]
    rfl
  obtain ⟨hlength, hincreasing, -⟩ := hsound.trace.path hfilled
  exact ⟨hlength.trans_le (hsound.count_le hcell), hincreasing⟩

end Table

/-! ### What a plan is -/

section PlanSpec

variable {R : Type} [Pricing R] {pricing : CacheEconomics R}
  {candidates : List (BreakpointCandidate R)}

theorem length_selectedBreakpoints (previousCumulativeTokens : Nat) (selected : List Nat) :
    (selectedBreakpoints pricing candidates previousCumulativeTokens selected).length ≤
      selected.length := by
  fun_induction selectedBreakpoints pricing candidates previousCumulativeTokens selected <;> grind

/-- A planned breakpoint is a selected candidate. -/
theorem mem_selectedBreakpoints {breakpoint : PlannedBreakpoint R}
    (h : breakpoint ∈ selectedBreakpoints pricing candidates previousCumulativeTokens selected) :
    ∃ index ∈ selected, ∃ candidate, candidates[index]? = some candidate ∧
      breakpoint.stablePrefixEnd = candidate.stablePrefixEnd ∧
      breakpoint.cumulativeTokens = candidate.cumulativeTokens := by
  fun_induction selectedBreakpoints pricing candidates previousCumulativeTokens selected <;> grind

theorem pairwise_selectedBreakpoints
    (hcandidates : candidates.Pairwise fun a b => a.stablePrefixEnd < b.stablePrefixEnd)
    (hselected : selected.Pairwise (· < ·)) (previousCumulativeTokens : Nat) :
    (selectedBreakpoints pricing candidates previousCumulativeTokens selected).Pairwise
      fun a b => a.stablePrefixEnd < b.stablePrefixEnd := by
  fun_induction selectedBreakpoints pricing candidates previousCumulativeTokens selected with
  | case1 => exact List.Pairwise.nil
  | case2 _ _ _ _ ih | case3 _ _ _ _ _ _ _ _ ih => exact ih (pairwise_cons.mp hselected).2
  | case4 _ index rest candidate hcandidate _ _ _ ih =>
    obtain ⟨hfirst, hrest⟩ := pairwise_cons.mp hselected
    refine pairwise_cons.mpr ⟨?_, ih hrest⟩
    intro later hlater
    obtain ⟨index', hindex', candidate', hcandidate', hend, -⟩ := mem_selectedBreakpoints hlater
    rw [hend]
    exact StableSort.lt_of_getElem? hcandidates (hfirst index' hindex') hcandidate hcandidate'

/-- What a plan promises, for the capabilities it was made with. -/
structure Planned (promptIr : PromptIR) (stability : StabilityAnalysisResult R)
    (capabilities : ModelFamilyCapabilities R) (planned : List (PlannedBreakpoint R)) : Prop where
  increasing : planned.Pairwise fun a b => a.stablePrefixEnd < b.stablePrefixEnd
  limits : planned ≠ [] → ∃ maxBreakpoints minimumCacheableTokens,
    capabilities.maxCacheBreakpoints = some maxBreakpoints ∧
    capabilities.minCacheableTokens = some minimumCacheableTokens ∧
    planned.length ≤ maxBreakpoints ∧
    ∀ breakpoint ∈ planned, ∃ k entry,
      (buildPrefixStats promptIr stability (stablePrefixEnd promptIr stability))[k]? = some entry ∧
      breakpoint.stablePrefixEnd = k + 1 ∧ breakpoint.cumulativeTokens = entry.cumulativeTokens ∧
      minimumCacheableTokens ≤ entry.cumulativeTokens

theorem Planned.nil {promptIr : PromptIR} {stability : StabilityAnalysisResult R}
    {capabilities : ModelFamilyCapabilities R} : Planned promptIr stability capabilities [] :=
  ⟨List.Pairwise.nil, fun h => absurd rfl h⟩

theorem eq_some_of_getD_ne {value : Option Nat} {default : Nat} (h : value.getD default ≠ default) :
    value = some (value.getD default) := by
  cases value with
  | none => exact absurd rfl h
  | some _ => rfl

/-- A plan respects the limits of the model. -/
theorem planned_of_plan (promptIr : PromptIR) (stability : StabilityAnalysisResult R)
    (observationCount : Nat) (capabilities : ModelFamilyCapabilities R) :
    Planned promptIr stability capabilities
      (planBreakpoints promptIr stability observationCount capabilities).plannedBreakpoints := by
  cases hpricing : capabilities.cacheEconomics with
  | none =>
    rw [planBreakpoints, hpricing]
    exact Planned.nil
  | some pricing =>
    rw [planBreakpoints, hpricing]
    simp only [profitableBreakpoints]
    split
    case isFalse => exact Planned.nil
    case isTrue hworth =>
      simp only [worthPlanning, Bool.and_eq_true, decide_eq_true_eq] at hworth
      obtain ⟨⟨⟨-, hmax⟩, -⟩, hmin⟩ := hworth
      split
      · exact Planned.nil
      · next selected hselected =>
        obtain ⟨hlength, hincreasing⟩ := selectBreakpointCandidates_eq_some hselected
        refine ⟨pairwise_selectedBreakpoints (pairwise_candidatesFrom _ _ _) hincreasing 0, ?_⟩
        intro _
        refine ⟨_, _, eq_some_of_getD_ne hmax, eq_some_of_getD_ne hmin,
          (length_selectedBreakpoints 0 selected).trans hlength, ?_⟩
        intro breakpoint hbreakpoint
        obtain ⟨index, -, candidate, hcandidate, hend, htokens⟩ :=
          mem_selectedBreakpoints hbreakpoint
        obtain ⟨k, entry, hentry, hsize, hend', htokens'⟩ :=
          candidate_of_mem (mem_of_getElem? hcandidate)
        exact ⟨k, entry, hentry, hend.trans hend', htokens.trans htokens', hsize⟩

end PlanSpec

end NemoRelay.Acg
