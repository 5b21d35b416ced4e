import NemoRelay.Codec.Json
import NemoRelay.Lib.Glob

/-!
# Target paths

Selectors of the redaction backend: JSON pointers, and pointers with `*` for one segment and `**`
for any number of segments.
-/

namespace NemoRelay.Pii

open List

abbrev Text := List Char

abbrev Path := List String

/-! ### JSON pointers -/

/-- `str::replace` of a tilde and a digit by a character. -/
def replaceEscape (digit replacement : Char) : Text → Text
  | '~' :: c :: text =>
    if c = digit then replacement :: replaceEscape digit replacement text
    else '~' :: replaceEscape digit replacement (c :: text)
  | c :: text => c :: replaceEscape digit replacement text
  | [] => []

def unescapeJsonPointerSegment (segment : Text) : Text :=
  replaceEscape '0' '~' (replaceEscape '1' '/' segment)

def jsonPointerSegments (pointer : String) : Option Path :=
  match pointer.toList with
  | [] => some []
  | '/' :: path =>
    some ((path.splitOn '/').map fun segment => .ofList (unescapeJsonPointerSegment segment))
  | _ => none

/-- Every tilde is followed by `0` or `1`. -/
def validEscapes : Text → Bool
  | '~' :: '0' :: text | '~' :: '1' :: text => validEscapes text
  | '~' :: _ => false
  | _ :: text => validEscapes text
  | [] => true

def isValidJsonPointer (pointer : String) : Bool :=
  match pointer.toList with
  | [] => true
  | '/' :: path => (path.splitOn '/').all validEscapes
  | _ => false

/-! ### Selectors -/

abbrev TargetPathSegment := Glob.Segment String

inductive TargetPathSelector
  | exact (segments : Path)
  | glob (segments : List TargetPathSegment)
  | recursiveGlob (segments : List TargetPathSegment)
  deriving DecidableEq

def targetPathSegment (segment : String) : TargetPathSegment :=
  if segment = "*" then .any else if segment = "**" then .anyDepth else .exact segment

/-- The selector of a pointer with wildcards. -/
def globSelector (segments : Path) : TargetPathSelector :=
  if segments.all fun segment => segment ≠ "*" && segment ≠ "**" then .exact segments
  else if segments.any (· = "**") then .recursiveGlob (segments.map targetPathSegment)
  else .glob (segments.map targetPathSegment)

structure TargetPathMatcher where
  selectors : List TargetPathSelector

def TargetPathMatcher.new (targetPaths targetPathGlobs : List String) :
    Option TargetPathMatcher := do
  let exact ← targetPaths.mapM fun path => (jsonPointerSegments path).map TargetPathSelector.exact
  let globs ← targetPathGlobs.mapM fun path => (jsonPointerSegments path).map globSelector
  return ⟨(exact ++ globs).eraseDups⟩

/-! ### Matching -/

/-- What the loop does at a segment of the path. -/
inductive GlobStep
  | descend
  | advance
  | retry

def globStep (segment : Option TargetPathSegment) (value : String) : GlobStep :=
  match segment with
  | some .anyDepth => .descend
  | some .any => .advance
  | some (.exact expected) => if expected = value then .advance else .retry
  | none => .retry

variable {segment : Option TargetPathSegment} {value : String}

theorem globStep_eq_descend (h : globStep segment value = .descend) : segment = some .anyDepth := by
  unfold globStep at h
  split at h
  · rfl
  · cases h
  · split at h <;> cases h
  · cases h

open Glob

theorem globStep_eq_advance (h : globStep segment value = .advance) :
    ∃ fixed, segment = some fixed ∧ fixed ≠ .anyDepth ∧
      ∀ pattern path, Matches (fixed :: pattern) (value :: path) ↔ Matches pattern path := by
  unfold globStep at h
  split at h
  · cases h
  · exact ⟨.any, rfl, nofun, fun _ _ => matches_any_cons⟩
  · split at h
    · next expected heq =>
      exact ⟨.exact expected, rfl, nofun, fun _ _ => by simp [heq]⟩
    · cases h
  · cases h

theorem not_matches_of_globStep_eq_retry {pattern : List TargetPathSegment} {index : Nat}
    {path : Path} (h : globStep pattern[index]? value = .retry) :
    ¬ Matches (pattern.drop index) (value :: path) := by
  cases hsegment : pattern[index]? with
  | none => simp [drop_eq_nil_of_le (getElem?_eq_none_iff.mp hsegment)]
  | some segment =>
    rw [drop_eq_getElem?_toList_append, hsegment]
    rw [hsegment] at h
    cases segment with
    | exact expected =>
      have hne : expected ≠ value := by
        rintro rfl
        simp [globStep] at h
      simp [hne]
    | any | anyDepth => cases h

/-- The variables of `recursive_glob_matches`. `recursive` is the last `**`, with the number of
segments of the path that are before its rest. -/
structure GlobState where
  patternIndex : Nat
  pathIndex : Nat
  recursive : Option (Nat × Nat)
  ordered : ∀ r ∈ recursive, r.1 < patternIndex ∧ r.2 ≤ pathIndex

namespace GlobState

def start : GlobState := ⟨0, 0, none, nofun⟩

/-- The rest of a `**` starts here. -/
def restart (recursiveIndex consumed : Nat) : GlobState where
  patternIndex := recursiveIndex + 1
  pathIndex := consumed
  recursive := some (recursiveIndex, consumed)
  ordered := by
    rintro _ ⟨⟩
    exact ⟨Nat.lt_succ_self _, Nat.le_refl _⟩

variable (state : GlobState)

def descend : GlobState := restart state.patternIndex state.pathIndex

def advance : GlobState where
  patternIndex := state.patternIndex + 1
  pathIndex := state.pathIndex + 1
  recursive := state.recursive
  ordered := fun r hr =>
    ⟨(state.ordered r hr).1.trans (Nat.lt_succ_self _), Nat.le_succ_of_le (state.ordered r hr).2⟩

/-- The last `**` takes one more segment. -/
def retry : Option GlobState :=
  state.recursive.map fun r => restart r.1 (r.2 + 1)

end GlobState

open GlobState

variable (pattern : List TargetPathSegment)

/-- The loop of `recursive_glob_matches`. -/
def globLoop (pattern : List TargetPathSegment) (path : Path) (descendant : Bool)
    (state : GlobState) : Bool :=
  if hpath : state.pathIndex < path.length then
    match hstep : globStep pattern[state.patternIndex]? path[state.pathIndex] with
    | .descend => globLoop pattern path descendant state.descend
    | .advance => globLoop pattern path descendant state.advance
    | .retry =>
      match hretry : state.retry with
      | none => false
      | some next => globLoop pattern path descendant next
  else if descendant then state.patternIndex < pattern.length || state.recursive.isSome
  else (pattern.drop state.patternIndex).all fun segment => segment = .anyDepth
  termination_by (pattern.length - (state.recursive.elim 0 fun r => r.1 + 1),
    path.length - state.recursive.elim 0 Prod.snd, path.length - state.pathIndex)
  decreasing_by
    · have hlength := (List.getElem?_eq_some_iff.mp (globStep_eq_descend hstep)).1
      apply Prod.Lex.left
      simp only [descend, restart, Option.elim_some]
      cases hrecursive : state.recursive with
      | none => simp only [Option.elim_none]; omega
      | some r =>
        have hr := (state.ordered r hrecursive).1
        simp only [Option.elim_some]
        omega
    · apply Prod.Lex.right
      apply Prod.Lex.right
      simp only [advance]
      omega
    · obtain ⟨r, hrecursive, rfl⟩ := Option.map_eq_some_iff.mp hretry
      have hr := (state.ordered r hrecursive).2
      rw [hrecursive]
      apply Prod.Lex.right
      apply Prod.Lex.left
      simp only [restart, Option.elim_some]
      omega

def recursiveGlobMatches (path : Path) (descendant : Bool) : Bool :=
  globLoop pattern path descendant .start

def TargetPathSelector.matches (path : Path) : TargetPathSelector → Bool
  | .exact segments => segments = path
  | .recursiveGlob segments => recursiveGlobMatches segments path false
  | .glob segments =>
    segments.length = path.length && (segments.zip path).all fun entry =>
      entry.1 = .any || entry.1 = .exact entry.2

def TargetPathMatcher.isEmpty (matcher : TargetPathMatcher) : Bool := matcher.selectors.isEmpty

def TargetPathMatcher.matches (matcher : TargetPathMatcher) (path : Path) : Bool :=
  matcher.selectors.any (TargetPathSelector.matches path)

/-! ### The loop finds every match -/

/-- Since the last `**`, the segments of the pattern have fixed depth and were all matched. -/
def GlobState.Retried (state : GlobState) : Prop :=
  ∀ r ∈ state.recursive, ∃ block,
    pattern.drop (r.1 + 1) = block ++ pattern.drop state.patternIndex ∧
      (∀ segment ∈ block, segment ≠ .anyDepth) ∧ r.2 + block.length = state.pathIndex

/-- A later start of the rest of the last `**` gives a match. -/
def GlobState.MatchesLater (path : Path) (state : GlobState) : Prop :=
  ∃ r ∈ state.recursive, ∃ k, r.2 < k ∧ k ≤ path.length ∧
    Glob.Matches (pattern.drop (r.1 + 1)) (path.drop k)

variable {pattern : List TargetPathSegment} {path : Path} {state : GlobState}

/-- The rest after a later start, without the segments that were matched. -/
theorem GlobState.MatchesLater.rest (hretried : state.Retried pattern)
    (h : state.MatchesLater pattern path) :
    ∃ k, state.pathIndex < k ∧ k ≤ path.length ∧
      Matches (pattern.drop state.patternIndex) (path.drop k) := by
  obtain ⟨r, hr, k, hk, hlength, h⟩ := h
  obtain ⟨block, hblock, hfixed, hindex⟩ := hretried r hr
  rw [hblock] at h
  obtain ⟨hle, h⟩ := h.of_block hfixed
  rw [length_drop] at hle
  rw [drop_drop] at h
  exact ⟨k + block.length, by omega, by omega, h⟩

/-- Nothing was matched since a `**` whose rest starts here. -/
theorem GlobState.retried_restart (recursiveIndex consumed : Nat) :
    (restart recursiveIndex consumed).Retried pattern := by
  rintro _ ⟨⟩
  exact ⟨[], rfl, nofun, rfl⟩

theorem GlobState.Retried.advance (h : state.Retried pattern) {segment : TargetPathSegment}
    (hsegment : pattern[state.patternIndex]? = some segment) (hfixed : segment ≠ .anyDepth) :
    state.advance.Retried pattern := by
  intro r hr
  obtain ⟨block, hblock, hblockFixed, hindex⟩ := h r hr
  refine ⟨block ++ [segment], ?_, ?_, ?_⟩
  · rw [hblock, append_assoc, drop_eq_getElem?_toList_append, hsegment]
    rfl
  · simpa [or_imp, forall_and] using ⟨hblockFixed, hfixed⟩
  · rw [length_append, ← Nat.add_assoc, hindex]
    rfl

/-- The rest of the pattern matches the rest of the path, or will after a later start. -/
def GlobState.Succeeds (pattern : List TargetPathSegment) (path : Path) (state : GlobState) :
    Prop :=
  Glob.Matches (pattern.drop state.patternIndex) (path.drop state.pathIndex) ∨
    state.MatchesLater pattern path

section Step

variable {value : String} {rest : Path} (hpath : path.drop state.pathIndex = value :: rest)
include hpath

/-- No earlier `**` has to take more segments: it could only leave less of the path to this one. -/
theorem GlobState.succeeds_descend (hretried : state.Retried pattern)
    (hstep : globStep pattern[state.patternIndex]? value = .descend) :
    state.descend.Succeeds pattern path ↔ state.Succeeds pattern path := by
  have hlt : state.pathIndex < path.length := by
    rw [← not_le, ← drop_eq_nil_iff, hpath]
    exact cons_ne_nil _ _
  have hpattern : pattern.drop state.patternIndex =
      .anyDepth :: pattern.drop (state.patternIndex + 1) := by
    rw [drop_eq_getElem?_toList_append, globStep_eq_descend hstep]
    rfl
  have hlater : state.descend.MatchesLater pattern path ↔ ∃ k, state.pathIndex < k ∧
      k ≤ path.length ∧ Matches (pattern.drop (state.patternIndex + 1)) (path.drop k) := by
    simp [MatchesLater, descend, restart]
  rw [Succeeds, Succeeds, hlater, hpattern, matches_anyDepth_drop_iff hlt.le]
  refine ⟨.inl, fun h => h.elim id fun h => ?_⟩
  obtain ⟨k, hk, hlength, h⟩ := h.rest hretried
  rw [hpattern] at h
  exact (matches_anyDepth_drop_iff hlt.le).mp (matches_anyDepth_of_drop hk.le hlength h)

theorem GlobState.succeeds_advance {segment : TargetPathSegment}
    (hsegment : pattern[state.patternIndex]? = some segment)
    (hmatches : ∀ pattern path, Matches (segment :: pattern) (value :: path) ↔
      Matches pattern path) :
    state.advance.Succeeds pattern path ↔ state.Succeeds pattern path := by
  have hrest : path.drop (state.pathIndex + 1) = rest := by
    rw [← drop_drop, hpath]
    rfl
  have hpattern : pattern.drop state.patternIndex =
      segment :: pattern.drop (state.patternIndex + 1) := by
    rw [drop_eq_getElem?_toList_append, hsegment]
    rfl
  rw [Succeeds, Succeeds, hpath, hpattern, hmatches, ← hrest]
  rfl

theorem GlobState.succeeds_retry {r : Nat × Nat} (hrecursive : state.recursive = some r)
    (hstep : globStep pattern[state.patternIndex]? value = .retry) (hlt : r.2 < path.length) :
    (restart r.1 (r.2 + 1)).Succeeds pattern path ↔ state.Succeeds pattern path := by
  rw [Succeeds, Succeeds, hpath, or_iff_right (not_matches_of_globStep_eq_retry hstep)]
  constructor
  · rintro (h | ⟨_, ⟨⟩, k, hk, hlength, h⟩)
    · exact ⟨r, hrecursive, r.2 + 1, Nat.lt_succ_self _, hlt, h⟩
    · exact ⟨r, hrecursive, k, by omega, hlength, h⟩
  · rintro ⟨r', hr', k, hk, hlength, h⟩
    obtain rfl : r = r' := Option.some_inj.mp (hrecursive.symm.trans hr')
    obtain rfl | hlt := Nat.eq_or_lt_of_le (Nat.succ_le_of_lt hk)
    · exact .inl h
    · exact .inr ⟨_, rfl, k, hlt, hlength, h⟩

end Step

/-- At the end of the path a strict descendant can match unless the pattern is used up and has no
`**`. -/
theorem GlobState.exists_succeeds_iff (hpath : state.pathIndex = path.length) :
    (∃ rest, rest ≠ [] ∧ state.Succeeds pattern (path ++ rest)) ↔
      state.patternIndex < pattern.length ∨ state.recursive.isSome = true := by
  have hdrop : ∀ rest, (path ++ rest).drop state.pathIndex = rest := fun rest => by
    rw [hpath, drop_left]
  constructor
  · rintro ⟨rest, hrest, h | ⟨r, hr, -⟩⟩
    · refine .inl (not_le.mp fun hle => hrest ?_)
      rwa [hdrop, drop_eq_nil_of_le hle, matches_nil_left] at h
    · exact .inr (Option.isSome_iff_exists.mpr ⟨r, hr⟩)
  · rintro (hlt | hsome)
    · obtain ⟨value, rest, h⟩ := exists_matches_cons (mt drop_eq_nil_iff.mp (not_le.mpr hlt))
      exact ⟨value :: rest, cons_ne_nil _ _, .inl (by rwa [hdrop])⟩
    · obtain ⟨r, hr⟩ := Option.isSome_iff_exists.mp hsome
      obtain ⟨rest, h⟩ := exists_matches (pattern.drop (r.1 + 1))
      have hle := (state.ordered r hr).2
      refine ⟨"" :: rest, cons_ne_nil _ _, .inr ⟨r, hr, path.length + 1, by omega, ?_, ?_⟩⟩
      · simp
      · rwa [append_cons, drop_left' (by simp)]

/-- The loop decides whether the path matches, or some strict descendant of it does. -/
theorem globLoop_iff (descendant : Bool) (hretried : state.Retried pattern)
    (hle : state.pathIndex ≤ path.length) :
    globLoop pattern path descendant state = true ↔
      ∃ rest, (rest ≠ [] ↔ descendant = true) ∧ state.Succeeds pattern (path ++ rest) := by
  have hdrop : ∀ (state : GlobState) (hpath : state.pathIndex < path.length) (rest : Path),
      (path ++ rest).drop state.pathIndex =
        path[state.pathIndex] :: (path ++ rest).drop (state.pathIndex + 1) := by
    intro state hpath rest
    rw [drop_append_of_le_length hpath.le, drop_append_of_le_length hpath,
      drop_eq_getElem_cons hpath, cons_append]
  fun_induction globLoop pattern path descendant state with
  | case1 state hpath hstep ih =>
    refine (ih (retried_restart _ _) hle).trans ?_
    exact exists_congr fun rest => and_congr_right fun _ =>
      succeeds_descend (hdrop state hpath rest) hretried hstep
  | case2 state hpath hstep ih =>
    obtain ⟨segment, hsegment, hfixed, hmatches⟩ := globStep_eq_advance hstep
    refine (ih (hretried.advance hsegment hfixed) hpath).trans ?_
    exact exists_congr fun rest => and_congr_right fun _ =>
      succeeds_advance (hdrop state hpath rest) hsegment hmatches
  | case3 state hpath hstep hretry =>
    refine iff_of_false nofun ?_
    rintro ⟨rest, -, h | ⟨r, hr, -⟩⟩
    · rw [hdrop state hpath] at h
      exact not_matches_of_globStep_eq_retry hstep h
    · rw [Option.map_eq_none_iff.mp hretry] at hr
      cases hr
  | case4 state hpath hstep next hretry ih =>
    obtain ⟨r, hrecursive, rfl⟩ := Option.map_eq_some_iff.mp hretry
    have hlt := (state.ordered r hrecursive).2.trans_lt hpath
    refine (ih (retried_restart _ _) hlt).trans ?_
    refine exists_congr fun rest => and_congr_right fun _ =>
      succeeds_retry (hdrop state hpath rest) hrecursive hstep ?_
    rw [length_append]
    exact Nat.lt_add_right _ hlt
  | case5 state hpath hmode =>
    have hend : state.pathIndex = path.length := by omega
    simpa [hmode] using (exists_succeeds_iff hend).symm
  | case6 state hpath hmode =>
    have hend := drop_eq_nil_of_le (Nat.le_of_not_lt hpath)
    have hlater : ¬ state.MatchesLater pattern path := by
      intro h
      obtain ⟨k, hk, hlength, -⟩ := h.rest hretried
      omega
    simp [hmode, GlobState.Succeeds, hend, matches_nil_right, hlater]

theorem succeeds_start : start.Succeeds pattern path ↔ Matches pattern path := by
  refine or_iff_left ?_
  rintro ⟨r, hr, -⟩
  cases hr

theorem recursiveGlobMatches_iff_exists (pattern : List TargetPathSegment) (path : Path)
    (descendant : Bool) :
    recursiveGlobMatches pattern path descendant = true ↔
      ∃ rest, (rest ≠ [] ↔ descendant = true) ∧ Matches pattern (path ++ rest) := by
  have hretried : start.Retried pattern := by
    intro r hr
    cases hr
  rw [recursiveGlobMatches, globLoop_iff descendant hretried (Nat.zero_le _)]
  simp only [succeeds_start]

theorem recursiveGlobMatches_iff (pattern : List TargetPathSegment) (path : Path) :
    recursiveGlobMatches pattern path false = true ↔ Matches pattern path := by
  simp [recursiveGlobMatches_iff_exists]

/-- **Recursive patterns.** The loop retries only the last `**`, and yet it accepts the paths that
match; in the mode for descendants, those with a strict extension that matches. -/
theorem recursiveGlobMatches_decides (pattern : List TargetPathSegment) (path : Path) :
    (recursiveGlobMatches pattern path false = true ↔ Matches pattern path) ∧
      (recursiveGlobMatches pattern path true = true ↔
        ∃ rest, rest ≠ [] ∧ Matches pattern (path ++ rest)) := by
  refine ⟨recursiveGlobMatches_iff pattern path, ?_⟩
  simp [recursiveGlobMatches_iff_exists]

/-! ### What a configuration selects -/

/-- The pattern of a pointer with wildcards. -/
def globPattern (segments : Path) : List TargetPathSegment := segments.map targetPathSegment

/-- The paths that the pointers of a configuration select. -/
def Selected (targetPaths targetPathGlobs : List String) (path : Path) : Prop :=
  (∃ pointer ∈ targetPaths, jsonPointerSegments pointer = some path) ∨
    ∃ pointer ∈ targetPathGlobs, ∃ segments, jsonPointerSegments pointer = some segments ∧
      Glob.Matches (globPattern segments) path

/-- Without a segment for any depth, a pattern is matched segment by segment. -/
theorem zip_all_iff (path : Path) (hfixed : ∀ segment ∈ pattern, segment ≠ .anyDepth) :
    (pattern.length = path.length && (pattern.zip path).all fun entry =>
      entry.1 = .any || entry.1 = .exact entry.2) = true ↔ Matches pattern path := by
  induction pattern generalizing path with
  | nil => cases path <;> simp
  | cons segment pattern ih =>
    rw [forall_mem_cons] at hfixed
    cases path with
    | nil => simp [matches_nil_right, hfixed.1]
    | cons value path =>
      have ih := ih path hfixed.2
      cases segment with
      | exact expected => simp [← ih, and_left_comm]
      | any => simp [← ih]
      | anyDepth => exact absurd rfl hfixed.1

theorem globPattern_of_plain {segments : Path}
    (h : segments.all (fun segment => segment ≠ "*" && segment ≠ "**") = true) :
    globPattern segments = segments.map .exact := by
  refine map_congr_left fun segment hsegment => ?_
  have hplain := all_eq_true.mp h segment hsegment
  simp only [Bool.and_eq_true, decide_eq_true_eq] at hplain
  rw [targetPathSegment, if_neg hplain.1, if_neg hplain.2]

theorem globSelector_matches (segments path : Path) :
    (globSelector segments).matches path = true ↔ Matches (globPattern segments) path := by
  rw [globSelector]
  split
  · next hplain =>
    rw [globPattern_of_plain hplain, matches_map_exact]
    exact decide_eq_true_iff
  · split
    · exact recursiveGlobMatches_iff _ _
    · next hrecursive =>
      refine zip_all_iff path fun segment hsegment => ?_
      obtain ⟨original, horiginal, rfl⟩ := mem_map.mp hsegment
      have hne : original ≠ "**" := by
        rintro rfl
        exact hrecursive (any_eq_true.mpr ⟨_, horiginal, rfl⟩)
      rw [targetPathSegment]
      split <;> nofun

theorem mem_mapM {α β : Type} {f : α → Option β} {l : List α} {l' : List β}
    (h : l.mapM f = some l') {b : β} : b ∈ l' ↔ ∃ a ∈ l, f a = some b := by
  induction l generalizing l' with
  | nil =>
    cases h
    simp
  | cons a l ih =>
    rw [mapM_cons] at h
    obtain ⟨b', hb', h⟩ := Option.bind_eq_some_iff.mp h
    obtain ⟨rest, hrest, h⟩ := Option.bind_eq_some_iff.mp h
    cases h
    rw [mem_cons, ih hrest]
    simp [hb', eq_comm]

theorem TargetPathMatcher.matches_iff {targetPaths targetPathGlobs : List String}
    {matcher : TargetPathMatcher} (h : new targetPaths targetPathGlobs = some matcher)
    (path : Path) : matcher.matches path = true ↔ Selected targetPaths targetPathGlobs path := by
  obtain ⟨exact, hexact, h⟩ := Option.bind_eq_some_iff.mp h
  obtain ⟨globs, hglobs, h⟩ := Option.bind_eq_some_iff.mp h
  cases h
  rw [TargetPathMatcher.matches, any_eq_true]
  simp only [mem_eraseDups, mem_append, or_and_right, exists_or, mem_mapM hexact,
    mem_mapM hglobs, Option.map_eq_some_iff]
  refine or_congr ⟨?_, ?_⟩ ⟨?_, ?_⟩
  · rintro ⟨_, ⟨pointer, hpointer, segments, hsegments, rfl⟩, h⟩
    rw [TargetPathSelector.matches, decide_eq_true_eq] at h
    exact ⟨pointer, hpointer, h ▸ hsegments⟩
  · rintro ⟨pointer, hpointer, hsegments⟩
    exact ⟨_, ⟨pointer, hpointer, path, hsegments, rfl⟩, decide_eq_true rfl⟩
  · rintro ⟨_, ⟨pointer, hpointer, segments, hsegments, rfl⟩, h⟩
    exact ⟨pointer, hpointer, segments, hsegments, (globSelector_matches segments path).mp h⟩
  · rintro ⟨pointer, hpointer, segments, hsegments, h⟩
    exact ⟨_, ⟨pointer, hpointer, segments, hsegments, rfl⟩,
      (globSelector_matches segments path).mpr h⟩

end NemoRelay.Pii
