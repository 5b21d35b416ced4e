import NemoRelay.Lib.Numbering
import NemoRelay.Pii.Sanitize

/-!
# Values that no selector reaches

The paths of a value that a matcher selects, and that redaction leaves a value alone if there are
none.
-/

namespace NemoRelay.Pii

open List

/-! ### The selected paths of a value -/

namespace TargetPathMatcher

def ownPath (matcher : TargetPathMatcher) (path : Path) : List Path :=
  if matcher.matches path then [path] else []

mutual

/-- The source collects a set. The paths of the parts of a value are different, so that a list is
the same. -/
def collectMatchingPaths (matcher : TargetPathMatcher) (path : Path) : Json → List Path
  | .arr items => matcher.ownPath path ++ matcher.collectItems path 0 items
  | .obj entries => matcher.ownPath path ++ matcher.collectEntries path entries
  | .null => matcher.ownPath path
  | .bool _ => matcher.ownPath path
  | .num _ => matcher.ownPath path
  | .str _ => matcher.ownPath path

def collectItems (matcher : TargetPathMatcher) (path : Path) (index : Nat) :
    List Json → List Path
  | [] => []
  | item :: items =>
    matcher.collectMatchingPaths (path ++ [toString index]) item ++
      matcher.collectItems path (index + 1) items

def collectEntries (matcher : TargetPathMatcher) (path : Path) :
    List (String × Json) → List Path
  | [] => []
  | entry :: entries => matcher.collectEntry path entry ++ matcher.collectEntries path entries

def collectEntry (matcher : TargetPathMatcher) (path : Path) : String × Json → List Path
  | (key, value) => matcher.collectMatchingPaths (path ++ [key]) value

end

def matchingJsonPointerPaths (matcher : TargetPathMatcher) (value : Json) : List Path :=
  matcher.collectMatchingPaths [] value

variable (matcher : TargetPathMatcher)

theorem collectItems_eq (path : Path) (index : Nat) (items : List Json) :
    matcher.collectItems path index items = (items.mapIdx fun i item =>
      matcher.collectMatchingPaths (path ++ [toString (index + i)]) item).flatten := by
  induction items generalizing index with
  | nil => rfl
  | cons item items ih =>
    rw [collectItems, ih, mapIdx_cons, flatten_cons]
    simp only [Nat.add_assoc, Nat.add_comm 1, Nat.add_zero]

theorem collectEntries_eq (path : Path) (entries : Object) :
    matcher.collectEntries path entries = entries.flatMap fun entry =>
      matcher.collectMatchingPaths (path ++ [entry.1]) entry.2 := by
  induction entries with
  | nil => rfl
  | cons entry entries ih =>
    rw [collectEntries, collectEntry, ih, flatMap_cons]

end TargetPathMatcher

/-! ### Nothing selected -/

/-- No part of the value is selected. -/
def Unselected (matcher : TargetPathMatcher) (path : Path) (value : Json) : Prop :=
  ∀ rest part, At value rest part → matcher.matches (path ++ rest) = false

variable {value : Json} {entries : Object}

namespace Unselected

variable {matcher : TargetPathMatcher} {path : Path}

theorem here (h : Unselected matcher path value) : matcher.matches path = false := by
  simpa using h [] value (.here value)

theorem item {items : List Json} (h : Unselected matcher path (.arr items)) {i : Nat}
    (hvalue : items[i]? = some value) : Unselected matcher (path ++ [toString i]) value := by
  intro rest part hat
  simpa using h (toString i :: rest) part (.item hvalue hat)

theorem member (h : Unselected matcher path (.obj entries)) {entry : String × Json}
    (hentry : entry ∈ entries) : Unselected matcher (path ++ [entry.1]) entry.2 := by
  intro rest part hat
  simpa using h (entry.1 :: rest) part (.member hentry hat)

variable {backend : CompiledBuiltinBackend}

open CompiledBuiltinBackend

theorem removes_eq_false (h : Unselected backend.targetPathMatcher path value) :
    backend.removes path = false := by
  cases hempty : backend.targetPathMatcher.isEmpty <;>
    simp [removes, matchesCurrentPreorderPath, h.here]

/-- A value of which nothing is selected stays as it is. -/
theorem sanitize_eq_self (hnonempty : backend.targetPathMatcher.isEmpty = false) (value : Json)
    (path : Path) (h : Unselected backend.targetPathMatcher path value) :
    backend.sanitizeJsonPreorderDfsAtPath path value = some value := by
  induction value using Json.induction generalizing path with
  | null | bool | num | str =>
    simp [sanitizeJsonPreorderDfsAtPath, h.removes_eq_false,
      matchesCurrentPreorderPath, hnonempty, h.here]
  | arr items ih =>
    rw [sanitize_arr h.removes_eq_false]
    congr 2
    refine ext_getElem? fun i => ?_
    rw [getElem?_mapIdx]
    cases hitem : items[i]? with
    | none => rfl
    | some item =>
      rw [Option.map_some, ih item (mem_of_getElem? hitem) _ (h.item hitem)]
      rfl
  | obj entries ih =>
    rw [sanitize_obj h.removes_eq_false]
    have hentries : ∀ entry ∈ entries,
        (backend.sanitizeJsonPreorderDfsAtPath (path ++ [entry.1]) entry.2).map (entry.1, ·) =
          some entry := by
      intro entry hentry
      rw [ih entry hentry _ (h.member hentry)]
      rfl
    rw [filterMap_congr hentries, filterMap_some]

open TargetPathMatcher

theorem ownPath_eq_nil (h : Unselected matcher path value) : matcher.ownPath path = [] := by
  simp [ownPath, h.here]

theorem collectMatchingPaths_eq_nil (value : Json) (path : Path)
    (h : Unselected matcher path value) : matcher.collectMatchingPaths path value = [] := by
  induction value using Json.induction generalizing path with
  | null | bool | num | str => rw [collectMatchingPaths, h.ownPath_eq_nil]
  | arr items ih =>
    rw [collectMatchingPaths, h.ownPath_eq_nil, collectItems_eq, nil_append, flatten_eq_nil_iff]
    intro list hlist
    obtain ⟨i, hi, rfl⟩ := mem_mapIdx.mp hlist
    rw [Nat.zero_add]
    exact ih _ (getElem_mem hi) _ (h.item (getElem?_eq_getElem hi))
  | obj entries ih =>
    rw [collectMatchingPaths, h.ownPath_eq_nil, collectEntries_eq, nil_append, flatMap_eq_nil_iff]
    intro entry hentry
    exact ih entry hentry _ (h.member hentry)

end Unselected

end NemoRelay.Pii
