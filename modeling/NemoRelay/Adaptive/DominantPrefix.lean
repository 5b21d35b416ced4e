import Mathlib.Data.List.TakeWhile
import NemoRelay.Adaptive.Economics

/-!
# The dominant prefix

In exact arithmetic and with a threshold above one half, the prefix that `analyze_stability`
reports is the only one of its length that the required share of the window has in common. Its
spans are stable, no other span at one of its indices is, and so the scores that the economics
walks over carry the spans of the prefix.
-/

namespace NemoRelay.Acg

open Option (some_inj)

open List

/-! ### Keys of blocks -/

variable {block : PromptBlock}

theorem blockKey_inj {block' : PromptBlock} (h : blockKey block = blockKey block') :
    block.spanId = block'.spanId ∧ block.content = block'.content := by
  have htext := String.ofList_injective h
  simp only [cons_append, append_assoc, List.cons.injEq, true_and] at htext
  obtain ⟨hspan, hrole⟩ := JsonText.quote_append_inj htext
  obtain ⟨-, htype⟩ := JsonText.quote_append_inj (List.cons.inj hrole).2
  obtain ⟨-, hlast⟩ := JsonText.quote_append_inj (List.cons.inj htype).2
  obtain ⟨hcontent, -⟩ := JsonText.quote_append_inj (List.cons.inj hlast).2
  exact ⟨String.toList_injective hspan, String.toList_injective hcontent⟩

/-- The prompt starts with blocks of these keys. -/
def sharesPrefix (keys : List String) (promptIr : PromptIR) : Bool :=
  keys.isPrefixOf (promptIr.blocks.map blockKey)

variable {keys : List String} {promptIr : PromptIR}

theorem sharesPrefix_iff :
    sharesPrefix keys promptIr = true ↔ keys <+: promptIr.blocks.map blockKey :=
  isPrefixOf_iff_prefix

variable {k : Nat}

theorem sharesPrefix_getElem? (h : sharesPrefix keys promptIr = true) (hk : k < keys.length) :
    ∃ block, promptIr.blocks[k]? = some block ∧ keys[k]? = some (blockKey block) := by
  obtain ⟨rest, hrest⟩ := sharesPrefix_iff.mp h
  have hkey : (promptIr.blocks.map blockKey)[k]? = keys[k]? := by
    rw [← hrest, getElem?_append_left hk]
  rw [getElem?_map, getElem?_eq_getElem hk, Option.map_eq_some_iff] at hkey
  obtain ⟨block, hblock, hkeys⟩ := hkey
  exact ⟨block, hblock, by rw [getElem?_eq_getElem hk, hkeys]⟩

/-- What a prompt with the prefix has at the place of a block of the prefix. -/
theorem exists_of_sharesPrefix (h : sharesPrefix keys promptIr = true)
    (hkey : keys[k]? = some (blockKey block)) : ∃ other, promptIr.blocks[k]? = some other ∧
      other.spanId = block.spanId ∧ other.content = block.content := by
  obtain ⟨other, hother, hsame⟩ :=
    sharesPrefix_getElem? h (List.getElem?_eq_some_iff.mp hkey).1
  exact ⟨other, hother, blockKey_inj (some_inj.mp (hsame.symm.trans hkey))⟩

theorem sharesPrefix_concat {key : String} :
    sharesPrefix (keys ++ [key]) promptIr = true ↔
      sharesPrefix keys promptIr = true ∧
        promptIr.blocks[keys.length]?.map blockKey = some key := by
  rw [sharesPrefix_iff, sharesPrefix_iff, ← getElem?_map]
  constructor
  · rintro ⟨rest, hrest⟩
    rw [← hrest, append_assoc]
    exact ⟨prefix_append _ _, by simp⟩
  · rintro ⟨⟨rest, hrest⟩, hkey⟩
    rw [← hrest, getElem?_append_right le_rfl, Nat.sub_self] at hkey
    cases rest with
    | nil => cases hkey
    | cons first rest =>
      cases hkey
      exact ⟨rest, by rw [← hrest, append_assoc, singleton_append]⟩

/-! ### The descent -/

variable {observations : List PromptIR}

open Tally StableSort

/-- The child of a key has the observations that share one more key. -/
theorem members_childEntries (keys : List String) (key : String) (observations : List PromptIR) :
    members (childEntries keys.length (observations.filter (sharesPrefix keys))) key =
      observations.filter (sharesPrefix (keys ++ [key])) := by
  induction observations with
  | nil => rfl
  | cons o observations ih =>
    have hconcat : sharesPrefix (keys ++ [key]) o = true ↔ _ := sharesPrefix_concat
    by_cases hshares : sharesPrefix keys o = true
    · cases hblock : o.blocks[keys.length]? with
      | none => simpa [childEntries, hshares, hblock, hconcat] using ih
      | some block =>
        by_cases hkey : blockKey block = key
        all_goals simpa [childEntries, members, hshares, hblock, hconcat, hkey] using ih
    · simpa [hshares, hconcat] using ih

theorem length_le_of_sharesPrefix (h : 0 < observations.countP (sharesPrefix keys)) :
    keys.length ≤ longest observations := by
  obtain ⟨o, ho, hshares⟩ := countP_pos_iff.mp h
  have hlength := (sharesPrefix_iff.mp hshares).length_le
  rw [length_map] at hlength
  exact hlength.trans (length_le_longest ho)

variable {required : Nat}

/-- The descent ends with a prefix that enough of the window shares, and too few share any longer
one. -/
theorem descend_shares (order : Nat → String → Nat) (fuel : Nat)
    (hmajority : observations.length < 2 * required)
    (henough : required ≤ observations.countP (sharesPrefix keys))
    (hfuel : longest observations < keys.length + fuel) :
    ∃ keys' : List String, keys'.length =
        descend order required fuel keys.length (observations.filter (sharesPrefix keys)) ∧
      required ≤ observations.countP (sharesPrefix keys') ∧
      ∀ key, observations.countP (sharesPrefix (keys' ++ [key])) < required := by
  induction fuel generalizing keys with
  | zero =>
    have := @length_le_of_sharesPrefix keys observations (by omega)
    omega
  | succ fuel ih =>
    have hchild := fun key => members_childEntries keys key observations
    have hlength : (childEntries keys.length (observations.filter (sharesPrefix keys))).length <
        2 * required :=
      ((length_filterMap_le _ _).trans (length_filter_le _ _)).trans_lt hmajority
    rw [descend]
    cases hdominant : dominant (order keys.length) required
        (childEntries keys.length (observations.filter (sharesPrefix keys))) with
    | none =>
      refine ⟨keys, rfl, henough, fun key => not_le.mp fun hrequired => ?_⟩
      rw [countP_eq_length_filter, ← hchild] at hrequired
      rw [(dominant_eq_some hlength).mpr ⟨key, rfl, hrequired⟩] at hdominant
      cases hdominant
    | some child =>
      obtain ⟨key, rfl, hrequired⟩ := (dominant_eq_some hlength).mp hdominant
      rw [hchild, ← countP_eq_length_filter] at hrequired
      rw [hchild]
      have hnext := @ih (keys ++ [key]) hrequired (by simp; omega)
      rwa [length_append] at hnext

/-- Two prefixes that more than half of the window share are prefixes of each other. -/
theorem prefix_of_majority {keys' : List String} (h : observations.length <
      observations.countP (sharesPrefix keys) + observations.countP (sharesPrefix keys'))
    (hlength : keys.length ≤ keys'.length) : keys <+: keys' := by
  obtain ⟨o, -, hshares, hshares'⟩ := exists_mem_both h
  exact prefix_of_prefix_length_le (sharesPrefix_iff.mp hshares) (sharesPrefix_iff.mp hshares')
    hlength

/-! ### Spans of indexed prompts -/

variable {entry : SpanObservations} {spanId : String} {o : PromptIR}

section Window

variable {observations : List PromptIR}

theorem mem_blocksOfSpan :
    block ∈ blocksOfSpan observations spanId ↔
      block.spanId = spanId ∧ ∃ o ∈ observations, ∃ k : Nat, o.blocks[k]? = some block := by
  simp only [blocksOfSpan, mem_filter, mem_flatMap, decide_eq_true_eq, ← mem_iff_getElem?]
  exact and_comm

theorem hasSpan_iff_getElem? {observation : PromptIR} :
    observation.hasSpan spanId = true ↔
      ∃ (k : Nat) (block : PromptBlock), observation.blocks[k]? = some block ∧
        block.spanId = spanId := by
  simp only [PromptIR.hasSpan, any_eq_true, decide_eq_true_eq, mem_iff_getElem?, ← exists_and_right]
  exact exists_comm

theorem blocksOfSpan_cons (o : PromptIR) (observations : List PromptIR) (spanId : String) :
    blocksOfSpan (o :: observations) spanId =
      blocksOfSpan [o] spanId ++ blocksOfSpan observations spanId := by
  simp [blocksOfSpan]

/-- The digests of the contents that a span has in the window. -/
def spanHashes [Canonicalization] (observations : List PromptIR) (spanId : String) : List String :=
  (blocksOfSpan observations spanId).map fun block => sha256Hex block.content

/-- An indexed prompt has a span at most once. -/
theorem PromptIR.Indexed.length_span_le (h : promptIr.Indexed) (spanId : String) :
    (promptIr.blocks.filter fun block => block.spanId = spanId).length ≤ 1 := by
  have hcount : (promptIr.blocks.filter fun block => block.spanId = spanId).length =
      (promptIr.blocks.map PromptBlock.spanId).count spanId := by
    rw [List.count, countP_map, countP_eq_length_filter]
    rfl
  rw [hcount]
  exact nodup_iff_count_le_one.mp h.nodup_spanIds spanId

/-- Each observation with a span has one block of it. -/
theorem length_blocksOfSpan_le (hindexed : ∀ o ∈ observations, o.Indexed) (spanId : String) :
    (blocksOfSpan observations spanId).length ≤ observations.countP (PromptIR.hasSpan spanId) := by
  induction observations with
  | nil => exact le_rfl
  | cons observation observations ih =>
    obtain ⟨hfirst, hrest⟩ := forall_mem_cons.mp hindexed
    have hone : (blocksOfSpan [observation] spanId).length ≤ 1 := by
      simpa [blocksOfSpan] using hfirst.length_span_le spanId
    have hih := ih hrest
    rw [blocksOfSpan_cons, length_append, countP_cons]
    by_cases hspan : observation.hasSpan spanId = true
    · simp only [hspan, if_true]
      omega
    · rw [not_not.mp (mt hasSpan_iff.mpr hspan)]
      simp only [length_nil]
      omega

/-- The least index of a span is the index at which it stands. -/
theorem firstSeen_eq [Canonicalization] (hindexed : ∀ o ∈ observations, o.Indexed)
    (hentry : spanSummary observations block.spanId = some entry) (ho : o ∈ observations)
    (hk : o.blocks[k]? = some block) : entry.firstSeenSequenceIndex = k := by
  have hall : ∀ n ∈ (blocksOfSpan observations block.spanId).map PromptBlock.sequenceIndex,
      n = k := by
    intro n hn
    obtain ⟨other, hother, rfl⟩ := mem_map.mp hn
    obtain ⟨hid, o', ho', k', hk'⟩ := mem_blocksOfSpan.mp hother
    rw [(hindexed o' ho' k' other hk').1]
    exact (hindexed o' ho').index_unique (hindexed o ho) hk' hk hid
  have hblock : block ∈ blocksOfSpan observations block.spanId :=
    mem_blocksOfSpan.mpr ⟨rfl, o, ho, k, hk⟩
  have hmem : k ∈ (blocksOfSpan observations block.spanId).map PromptBlock.sequenceIndex := by
    rw [← (hindexed o ho k block hk).1]
    exact mem_map_of_mem hblock
  have hmin : ((blocksOfSpan observations block.spanId).map PromptBlock.sequenceIndex).min? =
      some k := min?_eq_some_iff.mpr ⟨hmem, fun n hn => (hall n hn).ge⟩
  rw [spanSummary, summarize, if_neg (ne_nil_of_mem hblock), some_inj] at hentry
  rw [← hentry, hmin]
  rfl

/-- The prompts that share a prefix with `block` at index `k` all count for its content. -/
theorem countP_sharesPrefix_le [Canonicalization] (hkey : keys[k]? = some (blockKey block))
    (observations : List PromptIR) :
    observations.countP (sharesPrefix keys) ≤
      (spanHashes observations block.spanId).count (sha256Hex block.content) := by
  induction observations with
  | nil => exact le_rfl
  | cons observation observations ih =>
    rw [spanHashes, blocksOfSpan_cons, map_append, count_append, countP_cons,
      ← spanHashes, ← spanHashes]
    by_cases hshares : sharesPrefix keys observation = true
    · obtain ⟨other, hother, hspan, hcontent⟩ := exists_of_sharesPrefix hshares hkey
      have hpos : 0 < (spanHashes [observation] block.spanId).count (sha256Hex block.content) := by
        rw [count_pos_iff, ← hcontent]
        exact mem_map_of_mem (mem_blocksOfSpan.mpr ⟨hspan, observation, by simp, k, hother⟩)
      simp only [hshares, if_true]
      omega
    · simp only [hshares, Bool.false_eq_true, if_false]
      omega

/-- A prompt that shares the prefix has at index `k` no span but that of the prefix. -/
theorem countP_hasSpan_add_le {other : PromptBlock} (hindexed : ∀ o ∈ observations, o.Indexed)
    (hkey : keys[k]? = some (blockKey block)) (ho : o ∈ observations)
    (hother : o.blocks[k]? = some other) (hne : other.spanId ≠ block.spanId) :
    observations.countP (PromptIR.hasSpan other.spanId) +
      observations.countP (sharesPrefix keys) ≤ observations.length := by
  refine not_lt.mp fun hlt => hne ?_
  obtain ⟨o', ho', hspan, hshares⟩ := exists_mem_both hlt
  obtain ⟨k', block', hk', hid⟩ := hasSpan_iff_getElem?.mp hspan
  obtain rfl := (hindexed o' ho').index_unique (hindexed o ho) hk' hother hid
  obtain ⟨shared, hshared, hspan, -⟩ := exists_of_sharesPrefix hshares hkey
  rw [← hid, some_inj.mp (hk'.symm.trans hshared), hspan]

end Window

/-! ### Exact scores -/

section Exact

variable [Canonicalization] {observations : List PromptIR}

/-- The number of occurrences of the most frequent content. -/
def SpanObservations.maxHashCount (order : String → Nat) (entry : SpanObservations) : Nat :=
  ((entry.hashCounts.iterate order).map Prod.snd).foldr max 0

variable (order : String → Nat)

omit [Canonicalization] in
theorem effectiveStabilityScore_rat (h : entry.presentCount ≠ 0) (total : Nat) :
    (effectiveStabilityScore order entry total : Rat) =
      (entry.maxHashCount order : Rat) / total := by
  have hpresent : (entry.presentCount : Rat) ≠ 0 := Nat.cast_ne_zero.mpr h
  show (entry.presentCount : Rat) / total * (if entry.presentCount = 0 then 0 else
    (entry.maxHashCount order : Rat) / entry.presentCount) = _
  rw [if_neg h, div_mul_div_comm, mul_comm (entry.presentCount : Rat),
    mul_div_mul_right _ _ hpresent]

section

variable (h : spanSummary observations spanId = some entry)
include h

theorem spanSummary_eq_some :
    blocksOfSpan observations spanId ≠ [] ∧
      entry.hashCounts = tally (spanHashes observations spanId) ∧
      entry.presentCount = observations.countP (PromptIR.hasSpan spanId) := by
  rw [spanSummary, summarize] at h
  split at h
  · cases h
  · rename_i hne
    cases h
    exact ⟨hne, rfl, rfl⟩

/-- The entry of a span determines where the span stands. -/
theorem exists_getElem?_of_spanSummary :
    ∃ o ∈ observations, ∃ (k : Nat) (block : PromptBlock), o.blocks[k]? = some block ∧
      block.spanId = spanId := by
  obtain ⟨block, hblock⟩ := exists_mem_of_ne_nil _ (spanSummary_eq_some h).1
  obtain ⟨hid, o, ho, k, hk⟩ := mem_blocksOfSpan.mp hblock
  exact ⟨o, ho, k, block, hk, hid⟩

theorem presentCount_ne_zero : entry.presentCount ≠ 0 := by
  obtain ⟨o, ho, hspan⟩ := exists_getElem?_of_spanSummary h
  rw [(spanSummary_eq_some h).2.2, ← Nat.pos_iff_ne_zero, countP_pos_iff]
  exact ⟨o, ho, hasSpan_iff_getElem?.mpr hspan⟩

/-- The content that occurs most is at least as frequent as any. -/
theorem count_le_maxHashCount (hash : String) :
    (spanHashes observations spanId).count hash ≤ entry.maxHashCount order := by
  obtain ⟨-, hcounts, -⟩ := spanSummary_eq_some h
  by_cases hmem : hash ∈ spanHashes observations spanId
  · have hget := get_tally (spanHashes observations spanId) hash
    rw [if_pos hmem, ← hcounts] at hget
    have hentry : (hash, _) ∈ _ := (OrderedMap.mem_iterate order).mpr hget
    exact le_max_of_le' 0 (mem_map_of_mem hentry) le_rfl
  · rw [count_eq_zero_of_not_mem hmem]
    exact Nat.zero_le _

end

/-- A content occurs at most once in each observation that has the span. -/
theorem maxHashCount_le (hindexed : ∀ o ∈ observations, o.Indexed)
    (h : spanSummary observations spanId = some entry) :
    entry.maxHashCount order ≤ entry.presentCount := by
  obtain ⟨-, hcounts, hpresent⟩ := spanSummary_eq_some h
  refine max_le_of_forall_le _ _ ?_
  intro n hn
  obtain ⟨⟨hash, count⟩, hentry, rfl⟩ := mem_map.mp hn
  rw [OrderedMap.mem_iterate, hcounts, get_tally] at hentry
  dsimp only at hentry
  split at hentry
  · cases hentry
    rw [hpresent]
    refine count_le_length.trans ?_
    rw [spanHashes, length_map]
    exact length_blocksOfSpan_le hindexed spanId
  · cases hentry

variable {thresholds : StabilityThresholds Rat}

/-- A span is stable when the share of its most frequent content reaches the threshold. -/
theorem classifyStability_eq_stable_iff (hentry : spanSummary observations spanId = some entry) :
    classifyStability (effectiveStabilityScore order entry observations.length) thresholds =
        .stable ↔
      thresholds.stableThreshold * observations.length ≤ (entry.maxHashCount order : Rat) := by
  obtain ⟨o, ho, -⟩ := exists_getElem?_of_spanSummary hentry
  have htotal : (0 : Rat) < observations.length :=
    Nat.cast_pos.mpr (length_pos_of_mem ho)
  rw [classifyStability, effectiveStabilityScore_rat order (presentCount_ne_zero hentry),
    ← le_div_iff₀ htotal]
  simp only [Score.atLeast, decide_eq_true_eq]
  split
  · next hscore => exact iff_of_true rfl hscore
  · next hscore =>
    refine iff_of_false ?_ hscore
    split <;> nofun

variable (hkey : keys[k]? = some (blockKey block))
include hkey

/-- The span of a prefix that enough of the window shares is stable. -/
theorem classifyStability_of_shared (hentry : spanSummary observations block.spanId = some entry)
    (hshare : thresholds.stableThreshold * observations.length ≤ (observations.countP
      (sharesPrefix keys) : Rat)) :
    classifyStability (effectiveStabilityScore order entry observations.length) thresholds =
      .stable := by
  have hcount : observations.countP (sharesPrefix keys) ≤ entry.maxHashCount order :=
    (countP_sharesPrefix_le hkey observations).trans (count_le_maxHashCount order hentry _)
  exact (classifyStability_eq_stable_iff order hentry).mpr (hshare.trans (Nat.cast_le.mpr hcount))

/-- Another span at an index of a prefix that more than half of the window shares is not. -/
theorem classifyStability_of_contested (hindexed : ∀ o ∈ observations, o.Indexed)
    (hthreshold : 1 / 2 < thresholds.stableThreshold) {other : PromptBlock}
    (hentry : spanSummary observations other.spanId = some entry) (ho : o ∈ observations)
    (hother : o.blocks[k]? = some other) (hne : other.spanId ≠ block.spanId)
    (hmajority : observations.length < 2 * observations.countP (sharesPrefix keys)) :
    classifyStability (effectiveStabilityScore order entry observations.length) thresholds ≠
      .stable := by
  have hpresent := countP_hasSpan_add_le hindexed hkey ho hother hne
  rw [← (spanSummary_eq_some hentry).2.2] at hpresent
  have hmax := maxHashCount_le order hindexed hentry
  have hhalf : 2 * (entry.maxHashCount order : Rat) < observations.length := by
    exact_mod_cast (show 2 * entry.maxHashCount order < observations.length by omega)
  refine mt (classifyStability_eq_stable_iff order hentry).mp (not_le.mpr ?_)
  have hscale := mul_le_mul_of_nonneg_right hthreshold.le (Nat.cast_nonneg observations.length)
  linarith

end Exact

/-! ### Sorted scores -/

variable {length : Nat}

section Sorted

variable {R : Type} {sorted : List (Nat × BlockStabilityScore R)}

/-- In a sorted list of scores with one stable entry at each index of a prefix, a run of stable
scores at the start goes through the indices in order. -/
theorem getElem?_of_stable_run (hsorted : sorted.Pairwise fun a b => scoreKey a < scoreKey b)
    (hmem : ∀ k < length, ∃ e ∈ sorted, e.1 = k)
    (hunique : ∀ e ∈ sorted, ∀ e' ∈ sorted, e.1 = e'.1 → e.1 < length → e.2.classification =
      .stable → e'.2.classification = .stable → e = e') {run : Nat} (hrun : run ≤ length)
    (hstable : ∀ j < run, ∀ e, sorted[j]? = some e → e.2.classification = .stable) :
    ∀ j < run, ∃ e, sorted[j]? = some e ∧ e.1 = j := by
  intro j
  induction j using Nat.strong_induction_on with
  | _ j ih =>
    intro hj
    obtain ⟨own, hin, hindex⟩ := hmem j (hj.trans_le hrun)
    obtain ⟨p, hp⟩ := mem_iff_getElem?.mp hin
    -- No entry of index `j` stands before `j`: the entries of smaller indices do.
    have hle : j ≤ p := by
      by_contra hlt
      rw [not_le] at hlt
      obtain ⟨e, he, hepos⟩ := ih p hlt (hlt.trans hj)
      rw [some_inj.mp (he.symm.trans hp)] at hepos
      omega
    obtain ⟨hplt, -⟩ := List.getElem?_eq_some_iff.mp hp
    obtain ⟨e, he⟩ : ∃ e, sorted[j]? = some e := ⟨_, getElem?_eq_getElem (hle.trans_lt hplt)⟩
    have hkey : scoreKey e ≤ scoreKey own := by
      obtain rfl | hlt := hle.eq_or_lt
      · rw [some_inj.mp (he.symm.trans hp)]
      · exact (lt_of_getElem? hsorted hlt he hp).le
    have hfirst : e.1 ≤ own.1 := Prod.Lex.monotone_fst (scoreKey e) (scoreKey own) hkey
    rw [hindex] at hfirst
    refine ⟨e, he, hfirst.eq_of_not_lt fun hlt => ?_⟩
    -- A stable entry of a smaller index already stands at that index.
    obtain ⟨earlier, hearlier, hpos⟩ := ih e.1 hlt (hlt.trans hj)
    have hsame := hunique e (mem_of_getElem? he) earlier (mem_of_getElem? hearlier)
      hpos.symm (hlt.trans (hj.trans_le hrun)) (hstable j hj e he)
      (hstable e.1 (hlt.trans hj) earlier hearlier)
    have := lt_of_getElem? hsorted hlt hearlier he
    rw [hsame] at this
    exact lt_irrefl _ this

end Sorted

/-! ### The reported prefix -/

/-- A prefix of the reported length that at least the share `threshold` of the window has in
common. -/
structure DominantPrefix (observations : List PromptIR) (threshold : Rat) (length : Nat)
    (keys : List String) : Prop where
  length_eq : keys.length = length
  share : threshold * observations.length ≤ (observations.countP (sharesPrefix keys) : Rat)

section Reported

variable {observations : List PromptIR} {threshold : Rat}

theorem requiredShare_le (hne : observations ≠ []) :
    requiredShare observations.length threshold ≤ observations.length := by
  have hpos := length_pos_iff.mpr hne
  have hlower : observations.length / 2 + 1 ≤ observations.length := by omega
  refine max_le hlower ((min_le_left _ _).trans ?_)
  rw [max_eq_left hpos]

theorem le_requiredShare (hthreshold : threshold ≤ 1) :
    threshold * observations.length ≤ (requiredShare observations.length threshold : Rat) := by
  have hceil : ⌈threshold * (observations.length : Rat)⌉₊ ≤ observations.length :=
    Nat.ceil_le.mpr (mul_le_of_le_one_left (Nat.cast_nonneg _) hthreshold)
  have hmin : min (max observations.length 1) ⌈threshold * (observations.length : Rat)⌉₊ =
      ⌈threshold * (observations.length : Rat)⌉₊ :=
    min_eq_right (hceil.trans (le_max_left _ _))
  calc threshold * observations.length
      ≤ (⌈threshold * (observations.length : Rat)⌉₊ : Rat) := Nat.le_ceil _
    _ ≤ (requiredShare observations.length threshold : Rat) := by
        rw [Nat.cast_le, ← hmin]
        exact le_max_right _ _

variable (order : Nat → String → Nat)

theorem exists_longestPrefix (threshold : Rat) (hne : observations ≠ []) :
    ∃ keys : List String, keys.length = dominantPrefixLength order observations threshold ∧
      requiredShare observations.length threshold ≤ observations.countP (sharesPrefix keys) ∧
      ∀ key, observations.countP (sharesPrefix (keys ++ [key])) <
        requiredShare observations.length threshold := by
  have hshares : ∀ o ∈ observations, sharesPrefix [] o = true :=
    fun o _ => sharesPrefix_iff.mpr nil_prefix
  have hlongest := @descend_shares [] observations _ order (longest observations + 1)
    (lt_two_mul_requiredShare observations.length threshold)
    (by rw [countP_eq_length.mpr hshares]; exact requiredShare_le hne) (by simp)
  rwa [filter_eq_self.mpr hshares] at hlongest

/-- No longer prefix has the required share: it would extend the one that the descent has found. -/
theorem le_dominantPrefixLength (hne : observations ≠ [])
    (hcount : requiredShare observations.length threshold ≤
      observations.countP (sharesPrefix keys)) :
    keys.length ≤ dominantPrefixLength order observations threshold := by
  obtain ⟨longest, hlength, hlongest, hlonger⟩ := exists_longestPrefix order threshold hne
  have hmajority := lt_two_mul_requiredShare observations.length threshold
  rw [← hlength]
  refine not_lt.mp fun hlt => ?_
  obtain ⟨rest, rfl⟩ := prefix_of_majority (by omega : observations.length < _ + _) hlt.le
  obtain ⟨key, rest, rfl⟩ := exists_cons_of_ne_nil (l := rest) (by rintro rfl; simp at hlt)
  have hmono : observations.countP (sharesPrefix (longest ++ key :: rest)) ≤
      observations.countP (sharesPrefix (longest ++ [key])) := by
    refine countP_mono_left fun o _ hshares => sharesPrefix_iff.mpr ?_
    refine List.IsPrefix.trans ⟨rest, ?_⟩ (sharesPrefix_iff.mp hshares)
    rw [append_assoc, singleton_append]
  exact absurd (hcount.trans hmono) (hlonger key).not_ge

theorem exists_dominantPrefix (hthreshold : threshold ≤ 1) (hne : observations ≠ []) :
    ∃ keys, DominantPrefix observations threshold
      (dominantPrefixLength order observations threshold) keys := by
  obtain ⟨keys, hlength, hcount, -⟩ := exists_longestPrefix order threshold hne
  exact ⟨keys, hlength, (le_requiredShare hthreshold).trans (Nat.cast_le.mpr hcount)⟩

theorem DominantPrefix.majority (h : DominantPrefix observations threshold length keys)
    (hthreshold : 1 / 2 < threshold) (hne : observations ≠ []) :
    observations.length < 2 * observations.countP (sharesPrefix keys) := by
  have htotal : (0 : Rat) < observations.length :=
    Nat.cast_pos.mpr (length_pos_iff.mpr hne)
  have hhalf := mul_lt_mul_of_pos_right hthreshold htotal
  have hcast : (observations.length : Rat) < 2 * observations.countP (sharesPrefix keys) := by
    linarith [h.share]
  exact_mod_cast hcast

/-- Two prefixes of one length cannot both be shared by more than half of the window. -/
theorem DominantPrefix.unique (hthreshold : 1 / 2 < threshold) (hne : observations ≠ [])
    {keys' : List String} (h : DominantPrefix observations threshold length keys)
    (h' : DominantPrefix observations threshold length keys') : keys = keys' := by
  have hmajority := h.majority hthreshold hne
  have hmajority' := h'.majority hthreshold hne
  have hlength := h.length_eq.trans h'.length_eq.symm
  refine (prefix_of_majority (?_ : observations.length < _) hlength.le).eq_of_length hlength
  omega

/-! ### The longest prefix and its fingerprint -/

section Fingerprint

variable [Canonicalization]

omit [Canonicalization] in
/-- A digest that has more than half of the fingerprints is the dominant one. -/
theorem dominantFingerprint_of_majority (order : String → Nat) {fingerprints : List String}
    {digest : String} (h : fingerprints.length < 2 * fingerprints.count digest) :
    dominantFingerprint order fingerprints = some digest := by
  have hentry : ∀ entry, entry ∈ (tally fingerprints).iterate order ↔
      entry.1 ∈ fingerprints ∧ fingerprints.count entry.1 = entry.2 := by
    intro entry
    rw [OrderedMap.mem_iterate, get_tally]
    simp
  have hpos : 0 < fingerprints.count digest := by omega
  have hmem : (digest, fingerprints.count digest) ∈ (tally fingerprints).iterate order :=
    (hentry _).mpr ⟨count_pos_iff.mp hpos, rfl⟩
  obtain ⟨best, hbest, hin, hle⟩ := lastMax_spec
    (fun entry : String × Nat => toLex (entry.2, OrderDual.toDual entry.1)) (ne_nil_of_mem hmem)
  have hcount : fingerprints.count digest ≤ fingerprints.count best.1 := by
    rw [((hentry best).mp hin).2]
    exact Prod.Lex.monotone_fst _ _ (hle _ hmem)
  -- both digests have more than half of the fingerprints
  obtain ⟨found, -, hfound, hfound'⟩ := exists_mem_both (l := fingerprints)
    (p := (· == digest)) (q := (· == best.1)) (by rw [← List.count, ← List.count]; omega)
  rw [dominantFingerprint, hbest, Option.map_some, ← eq_of_beq hfound', eq_of_beq hfound]

theorem promptPrefixFingerprint_of_shares (hkeys : keys ≠ [])
    (h : sharesPrefix keys promptIr = true) :
    promptPrefixFingerprint promptIr keys.length = some (sha256Hex ("\n".intercalate keys)) := by
  have hprefix := sharesPrefix_iff.mp h
  have hlength := hprefix.length_le
  rw [length_map] at hlength
  rw [promptPrefixFingerprint, map_take, ← prefix_iff_eq_take.mp hprefix]
  simp [hkeys, hlength]

/-- `dominant_prefix_length` returns the greatest depth to which the required share of the window
has one prefix, and the fingerprint is that of this prefix. A strict majority decides about the
fingerprint, whatever the digests of the other prefixes are. -/
theorem dominantPrefixLength_isGreatest (orders : Orders) (thresholds : StabilityThresholds Rat)
    (hne : observations ≠ []) :
    let total := observations.length
    let required := max (total / 2 + 1) (min total ⌈thresholds.stableThreshold * total⌉₊)
    let depth := dominantPrefixLength orders.children observations thresholds.stableThreshold
    IsGreatest {d | ∃ keys : List String, keys.length = d ∧
      required ≤ observations.countP (sharesPrefix keys)} depth ∧
    ∃ keys : List String, keys.length = depth ∧
      required ≤ observations.countP (sharesPrefix keys) ∧
      (0 < depth → (analyzeStability orders observations thresholds).stablePrefixFingerprint =
        some (sha256Hex ("\n".intercalate keys))) := by
  intro total required depth
  have hrequired : requiredShare total thresholds.stableThreshold = required := by
    have hmax : max total 1 = total := max_eq_left (length_pos_iff.mpr hne)
    rw [requiredShare, hmax]
    rfl
  have hmajority : total < 2 * required := hrequired ▸ lt_two_mul_requiredShare total _
  obtain ⟨keys, hlength, hcount, -⟩ :=
    exists_longestPrefix orders.children thresholds.stableThreshold hne
  rw [hrequired] at hcount
  change keys.length = depth at hlength
  refine ⟨⟨⟨keys, hlength, hcount⟩, ?_⟩, keys, hlength, hcount, fun hpos => ?_⟩
  · rintro _ ⟨keys', rfl, hcount'⟩
    exact le_dominantPrefixLength _ hne (hrequired.trans_le hcount')
  · have hkeys : keys ≠ [] := length_pos_iff.mp (hlength ▸ hpos)
    rw [analyzeStability, if_neg (by simpa using hne)]
    refine dominantFingerprint_of_majority _ ?_
    have hshare : observations.countP (sharesPrefix keys) ≤
        (observations.filterMap fun o => promptPrefixFingerprint o depth).count
          (sha256Hex ("\n".intercalate keys)) := by
      rw [List.count, countP_filterMap]
      refine countP_mono_left fun o _ hshares => ?_
      rw [← hlength, promptPrefixFingerprint_of_shares hkeys hshares]
      simp
    calc (observations.filterMap fun o => promptPrefixFingerprint o depth).length
        ≤ total := length_filterMap_le _ _
      _ < 2 * required := hmajority
      _ ≤ _ := Nat.mul_le_mul_left 2 (hcount.trans hshare)

end Fingerprint

/-- Three prompts, of which two share two blocks and the third starts with another one. -/
def sampleWindow : List PromptIR :=
  letI := forgetful
  let prompt last := AnnotatedLlmRequest.ofMessages
    [.system (.text "system") none, .user (.text "question") none, .user (.text last) none]
  [prompt "x", prompt "y", .ofMessages [.system (.text "other") none]].filterMap fun request =>
    (buildPromptIr request).toOption

def sampleThresholds : StabilityThresholds Rat := ⟨3 / 5, 1 / 2, 20⟩

theorem ceil_sampleThresholds : ⌈sampleThresholds.stableThreshold * (3 : Nat)⌉₊ = 2 := by
  rw [sampleThresholds, Nat.ceil_eq_iff two_ne_zero]
  norm_num

theorem two_le_sampleWindow :
    2 ≤ dominantPrefixLength unranked.children sampleWindow sampleThresholds.stableThreshold := by
  suffices hcount : requiredShare sampleWindow.length sampleThresholds.stableThreshold ≤
      sampleWindow.countP
        (sharesPrefix ((sampleWindow.flatMap (·.blocks.map blockKey)).take 2)) from
    le_dominantPrefixLength _ (by decide) hcount
  have hlength : sampleWindow.length = 3 := by decide
  show max _ (min _ ⌈sampleThresholds.stableThreshold * (sampleWindow.length : Rat)⌉₊) ≤ _
  rw [hlength, ceil_sampleThresholds]
  decide

theorem dominantPrefixLength_isGreatest_sample :
    letI := forgetful
    let depth := dominantPrefixLength unranked.children sampleWindow
      sampleThresholds.stableThreshold
    IsGreatest {d | ∃ keys : List String, keys.length = d ∧
      2 ≤ sampleWindow.countP (sharesPrefix keys)} depth ∧
    ∃ keys : List String, keys.length = depth ∧ 2 ≤ sampleWindow.countP (sharesPrefix keys) ∧
      (analyzeStability unranked sampleWindow sampleThresholds).stablePrefixFingerprint =
        some (sha256Hex ("\n".intercalate keys)) := by
  let _ := forgetful
  intro depth
  have hlength : sampleWindow.length = 3 := by decide
  have h := dominantPrefixLength_isGreatest unranked sampleThresholds
    (show sampleWindow ≠ [] by decide)
  simp only [hlength, ceil_sampleThresholds] at h
  obtain ⟨hgreatest, keys, hkeys, hcount, hfingerprint⟩ := h
  exact ⟨hgreatest, keys, hkeys, hcount, hfingerprint (two_pos.trans_le two_le_sampleWindow)⟩

end Reported

section Priced

variable [Canonicalization] {observations : List PromptIR} {thresholds : StabilityThresholds Rat}

/-- The entry of a span among the scores. -/
def spanScore (orders : Orders) (observations : List PromptIR)
    (thresholds : StabilityThresholds Rat) (spanId : String) (entry : SpanObservations) :
    Nat × BlockStabilityScore Rat :=
  buildStabilityScore (orders.hashes spanId) spanId entry observations.length thresholds

variable {e : Nat × BlockStabilityScore Rat} {orders : Orders}

theorem mem_indexedScores :
    e ∈ indexedScores orders observations thresholds ↔
      ∃ spanId entry, spanSummary observations spanId = some entry ∧
        e = spanScore orders observations thresholds spanId entry := by
  simp only [indexedScores, mem_map, OrderedMap.mem_iterate, Prod.exists,
    get_spanMap, spanScore, eq_comm]

/-- A span of the window has an entry. -/
theorem exists_spanSummary (ho : o ∈ observations) (hk : o.blocks[k]? = some block) :
    ∃ entry, spanSummary observations block.spanId = some entry := by
  rw [spanSummary, summarize, if_neg (ne_nil_of_mem (mem_blocksOfSpan.mpr ⟨rfl, o, ho, k, hk⟩))]
  exact ⟨_, rfl⟩

theorem scores_analyzeStability (orders : Orders) (hne : observations ≠ []) :
    (analyzeStability orders observations thresholds).scores =
      (sortByKey scoreKey (indexedScores orders observations thresholds)).map Prod.snd := by
  rw [analyzeStability, if_neg (by simpa using hne)]
  rfl

theorem stablePrefixLength_analyzeStability (orders : Orders) (hne : observations ≠ []) :
    (analyzeStability orders observations thresholds).stablePrefixLength =
      dominantPrefixLength orders.children observations thresholds.stableThreshold := by
  rw [analyzeStability, if_neg (by simpa using hne)]

/-- Every span of the prefix has a score, and is classified stable. -/
def PrefixStable (observations : List PromptIR) (result : StabilityAnalysisResult Rat)
    (keys : List String) : Prop :=
  ∀ o ∈ observations, sharesPrefix keys o = true → ∀ k < keys.length, ∀ block,
    o.blocks[k]? = some block →
      (∃ score ∈ result.scores, score.spanId = block.spanId) ∧
        ∀ score ∈ result.scores, score.spanId = block.spanId → score.classification = .stable

/-- For every live prompt that starts with the prefix, the scores that the economics goes through
carry the spans of the blocks of the prompt. -/
def PrefixPriced (result : StabilityAnalysisResult Rat) (keys : List String) : Prop :=
  ∀ live : PromptIR, sharesPrefix keys live = true →
    ∀ k < (buildPrefixStats live result (stablePrefixEnd live result)).length,
      ∃ score block, result.scores[k]? = some score ∧ live.blocks[k]? = some block ∧
        score.spanId = block.spanId

section

variable (h : DominantPrefix observations thresholds.stableThreshold length keys)
include h

theorem DominantPrefix.prefixStable (orders : Orders) :
    PrefixStable observations (analyzeStability orders observations thresholds) keys := by
  intro o ho hshares k hk block hblock
  have hne : observations ≠ [] := ne_nil_of_mem ho
  obtain ⟨block', hblock', hkey⟩ := sharesPrefix_getElem? hshares hk
  obtain rfl := some_inj.mp (hblock.symm.trans hblock')
  obtain ⟨entry, hentry⟩ := exists_spanSummary ho hblock
  rw [scores_analyzeStability orders hne]
  constructor
  · refine ⟨(spanScore orders observations thresholds block.spanId entry).2, ?_, rfl⟩
    exact mem_map_of_mem ((mem_sortByKey scoreKey).mpr (mem_indexedScores.mpr ⟨_, _, hentry, rfl⟩))
  · intro score hscore hid
    obtain ⟨e, he, rfl⟩ := mem_map.mp hscore
    obtain ⟨spanId, entry', hentry', rfl⟩ :=
      mem_indexedScores.mp ((mem_sortByKey scoreKey).mp he)
    obtain rfl : spanId = block.spanId := hid
    exact classifyStability_of_shared _ hkey hentry' h.share

variable (hindexed : ∀ o ∈ observations, o.Indexed)
include hindexed

/-- Every index of the prefix has an entry among the sorted scores. -/
theorem DominantPrefix.exists_sorted (ho : o ∈ observations)
    (hshares : sharesPrefix keys o = true) :
    ∀ k < length, ∃ e ∈ sortByKey scoreKey
      (indexedScores orders observations thresholds), e.1 = k := by
  intro k hk
  obtain ⟨block, hblock, -⟩ := sharesPrefix_getElem? hshares (h.length_eq.symm ▸ hk)
  obtain ⟨entry, hentry⟩ := exists_spanSummary ho hblock
  refine ⟨spanScore orders observations thresholds block.spanId entry, ?_,
    firstSeen_eq hindexed hentry ho hblock⟩
  rw [mem_sortByKey]
  exact mem_indexedScores.mpr ⟨_, _, hentry, rfl⟩

variable (hthreshold : 1 / 2 < thresholds.stableThreshold)
include hthreshold

/-- A stable score at an index of the prefix is that of the span of the prefix. -/
theorem DominantPrefix.spanId_eq
    (he : e ∈ indexedScores orders observations thresholds)
    (hstable : e.2.classification = .stable) (hkey : keys[e.1]? = some (blockKey block)) :
    e.2.spanId = block.spanId := by
  obtain ⟨spanId, entry, hentry, rfl⟩ := mem_indexedScores.mp he
  obtain ⟨o, ho, k, other, hother, rfl⟩ := exists_getElem?_of_spanSummary hentry
  have hindex : (spanScore orders observations thresholds other.spanId entry).1 = k :=
    firstSeen_eq hindexed hentry ho hother
  rw [hindex] at hkey
  by_contra hne
  exact classifyStability_of_contested _ hkey hindexed hthreshold hentry ho hother hne
    (h.majority hthreshold (ne_nil_of_mem ho)) hstable

/-- And only one that is stable. -/
theorem DominantPrefix.unique_sorted (hshares : sharesPrefix keys o = true) :
    ∀ e ∈ sortByKey scoreKey (indexedScores orders observations thresholds),
      ∀ e' ∈ sortByKey scoreKey (indexedScores orders observations thresholds),
        e.1 = e'.1 → e.1 < length → e.2.classification = .stable →
          e'.2.classification = .stable → e = e' := by
  intro e he e' he' hindex hlt hstable hstable'
  rw [mem_sortByKey] at he he'
  obtain ⟨block, -, hkey⟩ := sharesPrefix_getElem? hshares (h.length_eq.symm ▸ hlt)
  have hid := h.spanId_eq hindexed hthreshold he hstable hkey
  have hid' := h.spanId_eq hindexed hthreshold he' hstable' (hindex ▸ hkey)
  obtain ⟨spanId, entry, hentry, rfl⟩ := mem_indexedScores.mp he
  obtain ⟨spanId', entry', hentry', rfl⟩ := mem_indexedScores.mp he'
  obtain rfl : spanId = spanId' := hid.trans hid'.symm
  rw [some_inj.mp (hentry.symm.trans hentry')]

end

omit [Canonicalization] in
/-- The scores that are priced are stable. -/
theorem stable_of_lt_run {result : StabilityAnalysisResult Rat}
    {sorted : List (Nat × BlockStabilityScore Rat)}
    (hscores : result.scores = sorted.map Prod.snd) {stablePrefixEnd j : Nat}
    (hj : j < ((result.scores.take stablePrefixEnd).takeWhile
      BlockStabilityScore.isStable).length) (he : sorted[j]? = some e) :
    e.2.classification = .stable := by
  have htake := take_prefix stablePrefixEnd result.scores
  have hrun := takeWhile_prefix (l := result.scores.take stablePrefixEnd)
    BlockStabilityScore.isStable
  obtain ⟨rest, hrest⟩ := hrun.trans htake
  have hget : ((result.scores.take stablePrefixEnd).takeWhile BlockStabilityScore.isStable)[j]? =
      some e.2 := by
    rw [← getElem?_append_left hj, hrest, hscores, getElem?_map, he]
    rfl
  have hstable := mem_takeWhile_imp (mem_of_getElem? hget)
  exact of_decide_eq_true hstable

theorem DominantPrefix.prefixPriced (orders : Orders) (hindexed : ∀ o ∈ observations, o.Indexed)
    (hne : observations ≠ []) (hthreshold : 1 / 2 < thresholds.stableThreshold)
    (h : DominantPrefix observations thresholds.stableThreshold (analyzeStability orders
      observations thresholds).stablePrefixLength keys) :
    PrefixPriced (analyzeStability orders observations thresholds) keys := by
  intro live hlive k hk
  have hmajority := h.majority hthreshold hne
  obtain ⟨o, ho, hshares⟩ := countP_pos_iff.mp (by omega : 0 < observations.countP
    (sharesPrefix keys))
  rw [length_buildPrefixStats] at hk
  have hscores : (analyzeStability orders observations thresholds).scores = _ :=
    scores_analyzeStability orders hne
  generalize analyzeStability orders observations thresholds = result at hk hscores h ⊢
  have hrun := (lt_min_iff.mp hk).2
  have hlength : k < result.stablePrefixLength := by
    have hwhile := takeWhile_prefix (l := result.scores.take (stablePrefixEnd live result))
      BlockStabilityScore.isStable
    exact hrun.trans_le (hwhile.length_le.trans ((length_take_le _ _).trans (min_le_left _ _)))
  obtain ⟨e, he, hindex⟩ := getElem?_of_stable_run
    (pairwise_sortByKey_lt scoreKey
      (nodup_scoreKey (nodup_indexedScores orders thresholds observations)))
    (h.exists_sorted hindexed ho hshares) (h.unique_sorted hindexed hthreshold hshares)
    (Nat.succ_le_of_lt hlength) (fun j hj e he => stable_of_lt_run hscores
      ((Nat.lt_succ_iff.mp hj).trans_lt hrun) he) k (Nat.lt_succ_self k)
  obtain ⟨block, hblock, hkey⟩ := sharesPrefix_getElem? hlive (h.length_eq.symm ▸ hlength)
  refine ⟨e.2, block, ?_, hblock, ?_⟩
  · rw [hscores, getElem?_map, he]
    rfl
  · refine h.spanId_eq hindexed hthreshold ((mem_sortByKey _).mp (mem_of_getElem? he))
      (stable_of_lt_run hscores hrun he) ?_
    rw [hindex, hkey]

/-- **The priced prefix.** For a window of built prompts, exact scores and a threshold above one
half, exactly one prefix of the reported length is shared by the required part of the window. Its
spans are stable, and the economics prices the blocks of the prompts that start with it. -/
theorem dominantPrefix_priced (orders : Orders) (observations : List PromptIR)
    (hbuilt : ∀ o ∈ observations, ∃ request, buildPromptIr request = .ok o)
    (thresholds : StabilityThresholds Rat) (hlow : 1 / 2 < thresholds.stableThreshold)
    (hhigh : thresholds.stableThreshold ≤ 1) :
    ∃ keys, (∀ keys', DominantPrefix observations thresholds.stableThreshold
        (analyzeStability orders observations thresholds).stablePrefixLength keys' ↔ keys' = keys) ∧
      PrefixStable observations (analyzeStability orders observations thresholds) keys ∧
      PrefixPriced (analyzeStability orders observations thresholds) keys := by
  obtain rfl | hne := eq_or_ne observations []
  · refine ⟨[], fun keys => ⟨fun h => eq_nil_of_length_eq_zero h.length_eq, ?_⟩, nofun, ?_⟩
    · rintro rfl
      exact ⟨rfl, by simp⟩
    · intro live _ k hk
      rw [length_buildPrefixStats] at hk
      simp [analyzeStability] at hk
  have hindexed : ∀ o ∈ observations, o.Indexed := by
    intro o ho
    obtain ⟨request, hrequest⟩ := hbuilt o ho
    exact indexed_of_buildPromptIr hrequest
  obtain ⟨keys, hkeys⟩ := exists_dominantPrefix orders.children hhigh hne
  rw [← stablePrefixLength_analyzeStability orders hne] at hkeys
  refine ⟨keys, fun keys' => ⟨fun h => h.unique hlow hne hkeys, ?_⟩, hkeys.prefixStable orders,
    hkeys.prefixPriced orders hindexed hne hlow⟩
  rintro rfl
  exact hkeys

end Priced

theorem dominantPrefix_priced_sample :
    letI := forgetful
    let result := analyzeStability unranked sampleWindow sampleThresholds
    2 ≤ result.stablePrefixLength ∧
      ∃ keys, (∀ keys', DominantPrefix sampleWindow sampleThresholds.stableThreshold
          result.stablePrefixLength keys' ↔ keys' = keys) ∧
        PrefixStable sampleWindow result keys ∧ PrefixPriced result keys := by
  let _ := forgetful
  intro result
  refine ⟨?_, dominantPrefix_priced unranked sampleWindow ?_ sampleThresholds
    (by norm_num [sampleThresholds]) (by norm_num [sampleThresholds])⟩
  · rw [stablePrefixLength_analyzeStability unranked (by decide)]
    exact two_le_sampleWindow
  · intro o ho
    obtain ⟨request, -, hbuilt⟩ := mem_filterMap.mp ho
    refine ⟨request, ?_⟩
    cases h : buildPromptIr request <;> rw [h] at hbuilt <;> cases hbuilt
    rfl

end NemoRelay.Acg
