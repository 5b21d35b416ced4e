import NemoRelay.Lib.StableSort

/-!
# Extracting variables from a prompt

`extract_variables` replaces the matches of its patterns by placeholders. Of matches that overlap it
keeps the one that starts first, and the longest of those. The offsets of a match are in bytes and
are boundaries of characters, so that a slice fails for its order only; a result `none` stands for
the panic of such a slice.
-/

namespace NemoRelay.Acg

open StableSort List

inductive VariableCategory
  | timestamp | requestId | sessionId | locale
  | custom (name : String)

/-- What `Regex::find_iter` finds are ranges of the text it searches. -/
structure VariablePattern where
  name : String
  category : VariableCategory
  findIter : List UInt8 → List (Nat × Nat)
  find_range : ∀ content, ∀ range ∈ findIter content, range.1 ≤ range.2 ∧ range.2 ≤ content.length

structure VariableMatch where
  start : Nat
  stop : Nat
  pattern : VariablePattern

structure ExtractedVariable where
  patternName : String
  originalValue : List UInt8
  byteOffset : Nat
  byteLength : Nat
  category : VariableCategory

structure ExtractionResult where
  spanId : String
  templateContent : List UInt8
  extracted : List ExtractedVariable

section Extraction

variable (content : List UInt8) (patterns : List VariablePattern)

def allMatches : List VariableMatch :=
  patterns.flatMap fun pattern =>
    (pattern.findIter content).map fun range => ⟨range.1, range.2, pattern⟩

def overlaps (candidate selected : VariableMatch) : Bool :=
  candidate.start < selected.stop && candidate.stop > selected.start

def selectMatch (selected : List VariableMatch) (candidate : VariableMatch) : List VariableMatch :=
  if selected.any (overlaps candidate) then selected else selected ++ [candidate]

/-- Earlier matches come first, and longer ones before shorter ones. -/
def matchKey (found : VariableMatch) : Nat ×ₗ Natᵒᵈ :=
  toLex (found.start, .toDual (found.stop - found.start))

def selectedMatches : List VariableMatch :=
  sortByKey VariableMatch.start
    ((sortByKey matchKey (allMatches content patterns)).foldl selectMatch [])

/-- `content[start..stop]` -/
def slice (start stop : Nat) : Option (List UInt8) :=
  if start ≤ stop ∧ stop ≤ content.length then some ((content.take stop).drop start) else none

def placeholder (name : String) : List UInt8 :=
  ("\x7b\x7b" ++ name ++ "\x7d\x7d").toUTF8.data.toList

def VariableMatch.extract (found : VariableMatch) (original : List UInt8) : ExtractedVariable where
  patternName := found.pattern.name
  originalValue := original
  byteOffset := found.start
  byteLength := found.stop - found.start
  category := found.pattern.category

/-- The variables of the loop over the selected matches. -/
structure Extraction where
  template : List UInt8 := []
  extracted : List ExtractedVariable := []
  lastEnd : Nat := 0

def pushVariable (state : Extraction) (found : VariableMatch) : Option Extraction := do
  let text ← slice content state.lastEnd found.start
  let original ← slice content found.start found.stop
  return {
    template := state.template ++ (text ++ placeholder found.pattern.name)
    extracted := state.extracted ++ [found.extract original]
    lastEnd := found.stop }

def extractVariables (content : List UInt8) (spanId : String) (patterns : List VariablePattern) :
    Option (Option ExtractionResult) :=
  if (allMatches content patterns).isEmpty then some none
  else do
    let state ← (selectedMatches content patterns).foldlM (pushVariable content) {}
    let rest ← slice content state.lastEnd content.length
    return some ⟨spanId, state.template ++ rest, state.extracted⟩

/-! ### The selection -/

variable {content patterns} {selected : List VariableMatch} {found candidate : VariableMatch}

theorem match_range (h : found ∈ allMatches content patterns) :
    found.start ≤ found.stop ∧ found.stop ≤ content.length := by
  simp only [allMatches, mem_flatMap, mem_map] at h
  obtain ⟨pattern, -, range, hrange, rfl⟩ := h
  exact pattern.find_range content range hrange

theorem matchKey_le : matchKey found ≤ matchKey candidate ↔ found.start < candidate.start ∨
    found.start = candidate.start ∧ candidate.stop - candidate.start ≤ found.stop - found.start :=
  Prod.Lex.toLex_le_toLex

theorem foldl_selectMatch_sublist (candidates selected : List VariableMatch) :
    (candidates.foldl selectMatch selected).Sublist (selected ++ candidates) := by
  induction candidates generalizing selected with
  | nil => simp
  | cons candidate candidates ih =>
    refine (ih (selectMatch selected candidate)).trans ?_
    rw [selectMatch]
    split
    · exact (List.Sublist.refl selected).append (sublist_cons_self _ _)
    · rw [append_assoc, singleton_append]

theorem pairwise_foldl_selectMatch (candidates : List VariableMatch) :
    (candidates.foldl selectMatch []).Pairwise fun found candidate =>
      overlaps candidate found = false := by
  refine List.foldlRecOn candidates selectMatch .nil fun selected hselected candidate _ => ?_
  rw [selectMatch]
  split
  · exact hselected
  · rename_i hany
    exact pairwise_append.mpr ⟨hselected, pairwise_singleton _ _, by simpa using hany⟩

variable (content patterns) in
/-- The selection is in the order of the keys, and no match in it overlaps one before it. -/
theorem selectedMatches_spec :
    (selectedMatches content patterns).Pairwise (fun found candidate =>
      matchKey found ≤ matchKey candidate ∧ overlaps candidate found = false) ∧
    ∀ found ∈ selectedMatches content patterns, found ∈ allMatches content patterns := by
  have hsub := foldl_selectMatch_sublist (sortByKey matchKey (allMatches content patterns)) []
  have hkeys := (pairwise_sortByKey matchKey (allMatches content patterns)).sublist hsub
  have hsorted : selectedMatches content patterns =
      (sortByKey matchKey (allMatches content patterns)).foldl selectMatch [] :=
    mergeSort_of_pairwise (hkeys.imp fun hle => decide_eq_true (Prod.Lex.monotone_fst _ _ hle))
  rw [hsorted]
  refine ⟨hkeys.and (pairwise_foldl_selectMatch _), fun found hmem => ?_⟩
  exact (mem_sortByKey matchKey).mp (hsub.subset hmem)

variable (content patterns) in
/-- Of two selected matches that begin at one place, none is empty unless both are. -/
def NoEmptyMatch : Prop :=
  ∀ found ∈ selectedMatches content patterns, ∀ other ∈ selectedMatches content patterns,
    found.start = other.start → found.start < found.stop → other.start < other.stop

theorem ordered_iff :
    (selectedMatches content patterns).Pairwise (fun earlier later => earlier.stop ≤ later.start) ↔
      NoEmptyMatch content patterns := by
  obtain ⟨hpairwise, hmem⟩ := selectedMatches_spec content patterns
  constructor
  · intro hordered found hfound other hother hstart hlt
    by_contra hnot
    have hne : found ≠ other := fun heq => hnot (heq ▸ hlt)
    obtain hsub | hsub := pair_sublist_or_of_mem hfound hother hne
    · have := pairwise_iff_forall_sublist.mp hordered hsub
      omega
    · have := matchKey_le.mp (pairwise_iff_forall_sublist.mp hpairwise hsub).1
      omega
  · refine fun hnone => hpairwise.imp_of_mem fun {earlier later} hearlier hlater h => ?_
    have hkey := matchKey_le.mp h.1
    have hdisjoint := h.2
    simp only [overlaps, Bool.and_eq_false_iff, decide_eq_false_iff_not] at hdisjoint
    have hempty := hnone earlier hearlier later hlater
    have := match_range (hmem later hlater)
    omega

/-! ### The template -/

/-- The original values in the place of their placeholders give the content. -/
inductive Restores : List UInt8 → List ExtractedVariable → List UInt8 → Prop
  | rest (text : List UInt8) : Restores text [] text
  | extracted {template content : List UInt8} {later : List ExtractedVariable} (text : List UInt8)
      (value : ExtractedVariable) (h : Restores template later content) :
      Restores (text ++ (placeholder value.patternName ++ template)) (value :: later)
        (text ++ (value.originalValue ++ content))

structure Extracts (content : List UInt8) (result : ExtractionResult) : Prop where
  inRange : ∀ value ∈ result.extracted, value.byteOffset + value.byteLength ≤ content.length ∧
    value.originalValue = (content.drop value.byteOffset).take value.byteLength
  ordered : result.extracted.Pairwise fun earlier later =>
    earlier.byteOffset + earlier.byteLength ≤ later.byteOffset
  restores : Restores result.templateContent result.extracted content

theorem slice_eq_some {start stop : Nat} {text : List UInt8}
    (h : slice content start stop = some text) : start ≤ stop ∧
      text = (content.drop start).take (stop - start) ∧
      content.drop start = text ++ content.drop stop := by
  rw [slice] at h
  split at h
  · rename_i hle
    cases h
    rw [drop_take]
    refine ⟨hle.1, rfl, ?_⟩
    conv_lhs => rw [← take_append_drop (stop - start) (content.drop start), drop_drop]
    rw [Nat.add_sub_cancel' hle.1]
  · cases h

/-- What the loop extracts for a match. -/
def extractFrom (content : List UInt8) (found : VariableMatch) : ExtractedVariable :=
  found.extract ((content.drop found.start).take (found.stop - found.start))

/-- If no slice fails, the matches stand in order and the template restores the content. -/
theorem of_foldlM_pushVariable {state state' : Extraction}
    (h : selected.foldlM (pushVariable content) state = some state') :
    selected.Pairwise (fun earlier later => earlier.stop ≤ later.start) ∧
    (∀ found ∈ selected, state.lastEnd ≤ found.start) ∧
    state'.extracted = state.extracted ++ selected.map (extractFrom content) ∧
    ∃ template, state'.template = state.template ++ template ∧
      Restores (template ++ content.drop state'.lastEnd) (selected.map (extractFrom content))
        (content.drop state.lastEnd) := by
  induction selected generalizing state with
  | nil =>
    cases h
    exact ⟨.nil, nofun, by simp, [], by simp, .rest _⟩
  | cons found selected ih =>
    simp only [foldlM_cons, pushVariable, Option.bind_eq_bind, Option.bind_eq_some_iff,
      Option.pure_def, Option.some.injEq] at h
    obtain ⟨_, ⟨text, htext, _, horiginal, rfl⟩, h⟩ := h
    obtain ⟨hle, -, hdrop⟩ := slice_eq_some htext
    obtain ⟨hle', rfl, hdrop'⟩ := slice_eq_some horiginal
    obtain ⟨hpairwise, hstart, hextracted, template, htemplate, hrestores⟩ := ih h
    refine ⟨hpairwise.cons hstart, forall_mem_cons.mpr ⟨hle, fun later hlater => ?_⟩, ?_,
      text ++ (placeholder found.pattern.name ++ template), ?_, ?_⟩
    · exact (hle.trans hle').trans (hstart later hlater)
    · rw [hextracted, append_assoc]
      rfl
    · rw [htemplate, append_assoc, append_assoc]
    · rw [hdrop, hdrop', append_assoc, append_assoc]
      exact .extracted text (extractFrom content found) hrestores

theorem exists_foldlM_pushVariable (state : Extraction)
    (hordered : selected.Pairwise fun earlier later => earlier.stop ≤ later.start)
    (hstart : ∀ found ∈ selected, state.lastEnd ≤ found.start)
    (hrange : ∀ found ∈ selected, found.start ≤ found.stop ∧ found.stop ≤ content.length)
    (hend : state.lastEnd ≤ content.length) :
    ∃ state', selected.foldlM (pushVariable content) state = some state' ∧
      state'.lastEnd ≤ content.length := by
  induction selected generalizing state with
  | nil => exact ⟨state, rfl, hend⟩
  | cons found selected ih =>
    rw [pairwise_cons] at hordered
    rw [forall_mem_cons] at hstart hrange
    have htext := And.intro hstart.1 (hrange.1.1.trans hrange.1.2)
    simp only [foldlM_cons, pushVariable, slice, if_pos htext, if_pos hrange.1]
    exact ih _ hordered.2 hordered.1 hrange.2 hrange.1.2

theorem extracts_of_foldlM {state : Extraction} {rest : List UInt8} {spanId : String}
    (hmem : ∀ found ∈ selected, found ∈ allMatches content patterns)
    (hstate : selected.foldlM (pushVariable content) {} = some state)
    (hrest : slice content state.lastEnd content.length = some rest) :
    Extracts content ⟨spanId, state.template ++ rest, state.extracted⟩ := by
  obtain ⟨hordered, -, hextracted, template, htemplate, hrestores⟩ := of_foldlM_pushVariable hstate
  rw [(slice_eq_some hrest).2.2, drop_length, append_nil] at hrestores
  rw [htemplate, hextracted]
  have hlength : ∀ found ∈ selected, found.start + (found.stop - found.start) = found.stop :=
    fun found hfound => Nat.add_sub_cancel' (match_range (hmem found hfound)).1
  refine ⟨forall_mem_map.mpr fun found hfound => ⟨?_, rfl⟩, ?_, hrestores⟩
  · exact (hlength found hfound).trans_le (match_range (hmem found hfound)).2
  · refine pairwise_map.mpr (hordered.imp_of_mem fun hfound _ hle => ?_)
    exact (hlength _ hfound).trans_le hle

variable (content patterns) in
/-- The extraction does not panic, and its result is right, exactly if of two selected matches that
begin at one place none is empty unless both are. -/
theorem extractVariables_iff (spanId : String) :
    (∃ result, extractVariables content spanId patterns = some result ∧
      ∀ found ∈ result, Extracts content found) ↔ NoEmptyMatch content patterns := by
  have hmem := (selectedMatches_spec content patterns).2
  rw [← ordered_iff, extractVariables]
  split
  · rename_i hempty
    rw [isEmpty_iff.mp hempty] at hmem
    rw [eq_nil_iff_forall_not_mem.mpr fun found hfound => nomatch hmem found hfound]
    exact iff_of_true ⟨none, rfl, nofun⟩ .nil
  · simp only [Option.bind_eq_bind, Option.bind_eq_some_iff, Option.pure_def, Option.some.injEq]
    constructor
    · rintro ⟨result, ⟨state, hstate, -⟩, -⟩
      exact (of_foldlM_pushVariable hstate).1
    · intro hordered
      obtain ⟨state, hstate, hend⟩ := exists_foldlM_pushVariable {} hordered
        (fun _ _ => Nat.zero_le _) (fun found hfound => match_range (hmem found hfound))
        (Nat.zero_le _)
      have hrest : slice content state.lastEnd content.length = some _ := if_pos ⟨hend, le_rfl⟩
      refine ⟨_, ⟨state, hstate, _, hrest, rfl⟩, ?_⟩
      rintro _ ⟨⟩
      exact extracts_of_foldlM hmem hstate hrest

end Extraction

/-- The pattern `^.*` of a line, or `^`. -/
def startPattern (name : String) (line : Bool) : VariablePattern where
  name := name
  category := .custom name
  findIter content := [(0, if line then content.length else 0)]
  find_range content range h := by
    cases List.mem_singleton.mp h
    cases line <;> simp

/-- The empty match is selected after the match that begins at the same place. -/
theorem extractVariables_panics :
    extractVariables [97] "span" [startPattern "line" true, startPattern "empty" false] = none := by
  have hsorted : sortByKey matchKey
        (allMatches [97] [startPattern "line" true, startPattern "empty" false]) =
      [⟨0, 1, startPattern "line" true⟩, ⟨0, 0, startPattern "empty" false⟩] :=
    mergeSort_of_pairwise (pairwise_pair.mpr (decide_eq_true (matchKey_le.mpr (by simp))))
  have hselected : selectedMatches [97] [startPattern "line" true, startPattern "empty" false] =
      [⟨0, 1, startPattern "line" true⟩, ⟨0, 0, startPattern "empty" false⟩] := by
    rw [selectedMatches, hsorted]
    exact mergeSort_of_pairwise (pairwise_pair.mpr rfl)
  rw [extractVariables, hselected]
  rfl

end NemoRelay.Acg
