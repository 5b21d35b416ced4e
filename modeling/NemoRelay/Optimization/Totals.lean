import NemoRelay.Lib.CheckedSum
import NemoRelay.Optimization.Contribution

/-!
# Totals of saved tokens

The contributions of a call report any subset of the token counts. They are added up count by
count, with a flag for each count that leaves 64 bits. The total of a contribution is the one it
reports, or else the sum of its prompt and completion counts.
-/

namespace NemoRelay

open CheckedSum

/-- One more than the greatest `u64`. -/
def u64Bound : Nat := 2 ^ 64

theorem u64Bound_pos : 0 < u64Bound := by decide

attribute [ext] LlmOptimizationTokens

structure TokenOverflow where
  prompt : Bool
  completion : Bool
  cacheRead : Bool
  cacheWrite : Bool
  total : Bool

def TokenOverflow.any (overflow : TokenOverflow) : Bool :=
  overflow.prompt || overflow.completion || overflow.cacheRead || overflow.cacheWrite ||
    overflow.total

structure CheckedTokenTotals where
  values : LlmOptimizationTokens
  overflow : TokenOverflow
  missingTotal : Bool
  inconsistentTotal : Bool

/-- `checked_option_sum` of two counts, with the flag that it overflowed. -/
def checkedOptionSum : Option Nat → Option Nat → Option Nat × Bool
  | none, none => (none, false)
  | some a, none => (some a, false)
  | none, some b => (some b, false)
  | some a, some b => (add u64Bound a b, (add u64Bound a b).isNone)

namespace LlmOptimizationTokens

variable (tokens : LlmOptimizationTokens)

def derivedTotal : Option Nat × Bool :=
  checkedOptionSum tokens.promptTokens tokens.completionTokens

/-- The total that a contribution counts with. -/
def contributionTotal : Option Nat :=
  tokens.totalTokens.or tokens.derivedTotal.1

/-- All three counts are reported, and the total is not the sum. -/
def inconsistent : Bool :=
  match tokens.totalTokens, tokens.promptTokens, tokens.completionTokens with
  | some explicit, some prompt, some completion =>
    (add u64Bound prompt completion).any (· ≠ explicit)
  | _, _, _ => false

end LlmOptimizationTokens

open LlmOptimizationTokens

namespace CheckedTokenTotals

def empty : CheckedTokenTotals :=
  ⟨⟨none, none, none, none, none⟩, ⟨false, false, false, false, false⟩, false, false⟩

/-! ### Counts with their flags -/

variable (totals : CheckedTokenTotals)

def promptCount : CheckedSum.Count :=
  ⟨totals.values.promptTokens, totals.overflow.prompt⟩

def completionCount : CheckedSum.Count :=
  ⟨totals.values.completionTokens, totals.overflow.completion⟩

def cacheReadCount : CheckedSum.Count :=
  ⟨totals.values.cacheReadTokens, totals.overflow.cacheRead⟩

def cacheWriteCount : CheckedSum.Count :=
  ⟨totals.values.cacheWriteTokens, totals.overflow.cacheWrite⟩

def totalCount : CheckedSum.Count :=
  ⟨totals.values.totalTokens, totals.overflow.total⟩

def addContribution (other : LlmOptimizationTokens) : CheckedTokenTotals :=
  let prompt := totals.promptCount.accumulate u64Bound other.promptTokens
  let completion := totals.completionCount.accumulate u64Bound other.completionTokens
  let cacheRead := totals.cacheReadCount.accumulate u64Bound other.cacheReadTokens
  let cacheWrite := totals.cacheWriteCount.accumulate u64Bound other.cacheWriteTokens
  let total :=
    (if other.derivedTotal.2 then CheckedSum.Count.lost else totals.totalCount).accumulate u64Bound
      other.contributionTotal
  { values := ⟨prompt.value, completion.value, cacheRead.value, cacheWrite.value, total.value⟩
    overflow :=
      { prompt := prompt.overflowed
        completion := completion.overflowed
        cacheRead := cacheRead.overflowed
        cacheWrite := cacheWrite.overflowed
        total := total.overflowed }
    missingTotal := totals.missingTotal || other.contributionTotal.isNone
    inconsistentTotal := totals.inconsistentTotal || other.inconsistent }

/-- The totals of a list of savings. -/
def ofList (saved : List LlmOptimizationTokens) : CheckedTokenTotals :=
  saved.foldl addContribution empty

/-! ### Sums -/

/-- A count that is accumulated by itself is a checked sum. -/
theorem count_ofList (count : CheckedTokenTotals → Count)
    (value : LlmOptimizationTokens → Bool × Option Nat) (hempty : count empty = .zero)
    (hadd : ∀ totals other, count (totals.addContribution other) =
      (if (value other).1 then .lost else count totals).accumulate u64Bound (value other).2)
    (saved : List LlmOptimizationTokens) :
    count (ofList saved) = checkedSum u64Bound (saved.map value) := by
  induction saved using List.reverseRecOn with
  | nil => exact hempty
  | append_singleton saved other ih =>
    rw [ofList, List.foldl_concat, ← ofList, hadd, ih, List.map_append, List.map_singleton,
      checkedSum_concat]

variable (saved : List LlmOptimizationTokens)

theorem promptCount_ofList :
    (ofList saved).promptCount =
      checkedSum u64Bound (saved.map fun tokens => (false, tokens.promptTokens)) :=
  count_ofList promptCount _ rfl (fun _ _ => rfl) saved

theorem completionCount_ofList :
    (ofList saved).completionCount =
      checkedSum u64Bound (saved.map fun tokens => (false, tokens.completionTokens)) :=
  count_ofList completionCount _ rfl (fun _ _ => rfl) saved

theorem cacheReadCount_ofList :
    (ofList saved).cacheReadCount =
      checkedSum u64Bound (saved.map fun tokens => (false, tokens.cacheReadTokens)) :=
  count_ofList cacheReadCount _ rfl (fun _ _ => rfl) saved

theorem cacheWriteCount_ofList :
    (ofList saved).cacheWriteCount =
      checkedSum u64Bound (saved.map fun tokens => (false, tokens.cacheWriteTokens)) :=
  count_ofList cacheWriteCount _ rfl (fun _ _ => rfl) saved

theorem totalCount_ofList :
    (ofList saved).totalCount =
      checkedSum u64Bound
        (saved.map fun tokens => (tokens.derivedTotal.2, tokens.contributionTotal)) :=
  count_ofList totalCount _ rfl (fun _ _ => rfl) saved

theorem flag_ofList (flag : CheckedTokenTotals → Bool) (value : LlmOptimizationTokens → Bool)
    (hempty : flag empty = false)
    (hadd : ∀ totals other, flag (totals.addContribution other) = (flag totals || value other))
    (saved : List LlmOptimizationTokens) : flag (ofList saved) = saved.any value := by
  induction saved using List.reverseRecOn with
  | nil => exact hempty
  | append_singleton saved other ih =>
    rw [ofList, List.foldl_concat, ← ofList, hadd, ih]
    simp

theorem missingTotal_ofList :
    (ofList saved).missingTotal = saved.any fun tokens => tokens.contributionTotal.isNone :=
  flag_ofList missingTotal _ rfl (fun _ _ => rfl) saved

theorem inconsistentTotal_ofList : (ofList saved).inconsistentTotal = saved.any inconsistent :=
  flag_ofList inconsistentTotal _ rfl (fun _ _ => rfl) saved

theorem ext_counts {totals totals' : CheckedTokenTotals}
    (hprompt : totals.promptCount = totals'.promptCount)
    (hcompletion : totals.completionCount = totals'.completionCount)
    (hread : totals.cacheReadCount = totals'.cacheReadCount)
    (hwrite : totals.cacheWriteCount = totals'.cacheWriteCount)
    (htotal : totals.totalCount = totals'.totalCount)
    (hmissing : totals.missingTotal = totals'.missingTotal)
    (hinconsistent : totals.inconsistentTotal = totals'.inconsistentTotal) : totals = totals' := by
  obtain ⟨⟨_, _, _, _, _⟩, ⟨_, _, _, _, _⟩, _, _⟩ := totals
  obtain ⟨⟨_, _, _, _, _⟩, ⟨_, _, _, _, _⟩, _, _⟩ := totals'
  simp only [promptCount, completionCount, cacheReadCount, cacheWriteCount, totalCount,
    Count.mk.injEq] at *
  simp [*]

/-- The order of the contributions makes no difference. -/
theorem ofList_perm {saved saved' : List LlmOptimizationTokens} (h : saved.Perm saved') :
    ofList saved = ofList saved' := by
  have hsum (value : LlmOptimizationTokens → Bool × Option Nat) :
      checkedSum u64Bound (saved.map value) = checkedSum u64Bound (saved'.map value) :=
    checkedSum_perm u64Bound_pos (h.map value)
  apply ext_counts
  · rw [promptCount_ofList, promptCount_ofList, hsum]
  · rw [completionCount_ofList, completionCount_ofList, hsum]
  · rw [cacheReadCount_ofList, cacheReadCount_ofList, hsum]
  · rw [cacheWriteCount_ofList, cacheWriteCount_ofList, hsum]
  · rw [totalCount_ofList, totalCount_ofList, hsum]
  · rw [missingTotal_ofList, missingTotal_ofList, h.any_eq]
  · rw [inconsistentTotal_ofList, inconsistentTotal_ofList, h.any_eq]

end CheckedTokenTotals

/-! ### Exact totals -/

/-- The total of a contribution: the one it reports, or else the sum of its counts. -/
def LlmOptimizationTokens.reportedTotal (tokens : LlmOptimizationTokens) : Option Nat :=
  tokens.totalTokens.or (exactSum [tokens.promptTokens, tokens.completionTokens])

/-- The exact sums of the counts that contributions report. -/
def exactTotals (saved : List LlmOptimizationTokens) : LlmOptimizationTokens where
  promptTokens := exactSum (saved.map (·.promptTokens))
  completionTokens := exactSum (saved.map (·.completionTokens))
  cacheReadTokens := exactSum (saved.map (·.cacheReadTokens))
  cacheWriteTokens := exactSum (saved.map (·.cacheWriteTokens))
  totalTokens := exactSum (saved.map (·.reportedTotal))

theorem contributionTotal_eq {tokens : LlmOptimizationTokens}
    (h : tokens.derivedTotal.2 = false) : tokens.contributionTotal = tokens.reportedTotal := by
  rw [contributionTotal, reportedTotal]
  congr 1
  rw [derivedTotal] at h ⊢
  cases hprompt : tokens.promptTokens <;> cases hcompletion : tokens.completionTokens <;>
    rw [hprompt, hcompletion] at h
  · rfl
  · simp [checkedOptionSum, exactSum]
  · simp [checkedOptionSum, exactSum]
  · next a b =>
    cases hadd : add u64Bound a b with
    | none => simp [checkedOptionSum, hadd] at h
    | some total =>
      obtain ⟨rfl, -⟩ := add_eq_some.mp hadd
      simp [checkedOptionSum, hadd, exactSum]

open CheckedTokenTotals

/-- Totals without a flag are exact. -/
theorem values_ofList {saved : List LlmOptimizationTokens}
    (h : (ofList saved).overflow.any = false) : (ofList saved).values = exactTotals saved := by
  simp only [TokenOverflow.any, Bool.or_eq_false_iff] at h
  obtain ⟨⟨⟨⟨hprompt, hcompletion⟩, hread⟩, hwrite⟩, htotal⟩ := h
  -- every count is the exact sum of its own values
  have hexact : ∀ (count : Count) (values : List (Bool × Option Nat)),
      count = checkedSum u64Bound values → count.overflowed = false →
        Fits u64Bound values ∧ count.value = exactSum (values.map Prod.snd) := by
    rintro _ values rfl hcount
    exact checkedSum_of_not_overflowed u64Bound_pos hcount
  have h₁ := (hexact _ _ (promptCount_ofList saved) hprompt).2
  have h₂ := (hexact _ _ (completionCount_ofList saved) hcompletion).2
  have h₃ := (hexact _ _ (cacheReadCount_ofList saved) hread).2
  have h₄ := (hexact _ _ (cacheWriteCount_ofList saved) hwrite).2
  obtain ⟨hfits, h₅⟩ := hexact _ _ (totalCount_ofList saved) htotal
  rw [List.map_map] at h₁ h₂ h₃ h₄ h₅
  have hreported : saved.map (fun tokens => tokens.contributionTotal) =
      saved.map (·.reportedTotal) := by
    refine List.map_congr_left fun tokens htokens => ?_
    exact contributionTotal_eq (hfits.1 _ (List.mem_map_of_mem htokens))
  apply LlmOptimizationTokens.ext
  · exact h₁
  · exact h₂
  · exact h₃
  · exact h₄
  · exact h₅.trans (congrArg exactSum hreported)

end NemoRelay
