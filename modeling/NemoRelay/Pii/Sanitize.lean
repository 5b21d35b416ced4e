import NemoRelay.Pii.TargetPath

/-!
# Redaction of JSON values

The backend walks through a value in preorder with the path of the current node. Removing a node
drops the member of an object and leaves null in an array. The other actions rewrite strings.
-/

namespace NemoRelay.Pii

open List

/-- `rewrite` stands for hashing, masking and replacing, which turn a string into a string. -/
inductive BuiltinAction
  | remove
  | rewrite (replace : String → String)

def BuiltinAction.isRemove : BuiltinAction → Bool
  | remove => true
  | rewrite _ => false

structure CompiledBuiltinBackend where
  action : BuiltinAction
  targetPathMatcher : TargetPathMatcher

namespace CompiledBuiltinBackend

def invalidPointer (field : String) (index : Nat) : String :=
  "builtin." ++ field ++ "[" ++ toString index ++ "] must be a valid RFC 6901 JSON pointer"

/-- The checks of the target paths. The checks of the other settings are left out. -/
def new (action : BuiltinAction) (targetPaths targetPathGlobs : List String) :
    Except String CompiledBuiltinBackend :=
  match targetPaths.findIdx? fun path => !isValidJsonPointer path with
  | some index => .error (invalidPointer "target_paths" index)
  | none =>
    match targetPathGlobs.findIdx? fun path => !isValidJsonPointer path with
    | some index => .error (invalidPointer "target_path_globs" index)
    | none =>
      match TargetPathMatcher.new targetPaths targetPathGlobs with
      | none => .error "builtin target paths must be valid RFC 6901 JSON pointers"
      | some matcher =>
        if action.isRemove && matcher.isEmpty then
          .error ("builtin.action = 'remove' requires at least one builtin.target_paths or " ++
            "builtin.target_path_globs selector")
        else .ok ⟨action, matcher⟩

variable (backend : CompiledBuiltinBackend)

def matchesCurrentPreorderPath (path : Path) : Bool :=
  backend.targetPathMatcher.isEmpty || backend.targetPathMatcher.matches path

def sanitizeStringValue (text : String) : Option Json :=
  match backend.action with
  | .remove => none
  | .rewrite replace => some (.str (replace text))

/-- The node at a path is removed before anything else. -/
def removes (path : Path) : Bool :=
  !backend.targetPathMatcher.isEmpty && backend.matchesCurrentPreorderPath path &&
    backend.action.isRemove

mutual

def sanitizeJsonPreorderDfsAtPath (backend : CompiledBuiltinBackend) (path : Path) :
    Json → Option Json
  | .str text =>
    if backend.removes path then none
    else if backend.matchesCurrentPreorderPath path then backend.sanitizeStringValue text
    else some (.str text)
  | .arr items =>
    if backend.removes path then none else some (.arr (backend.sanitizeItems path 0 items))
  | .obj entries =>
    if backend.removes path then none else some (.obj (backend.sanitizeEntries path entries))
  | .null => if backend.removes path then none else some .null
  | .bool value => if backend.removes path then none else some (.bool value)
  | .num value => if backend.removes path then none else some (.num value)

def sanitizeItems (backend : CompiledBuiltinBackend) (path : Path) (index : Nat) :
    List Json → List Json
  | [] => []
  | item :: items =>
    (backend.sanitizeJsonPreorderDfsAtPath (path ++ [toString index]) item).getD .null ::
      backend.sanitizeItems path (index + 1) items

def sanitizeEntries (backend : CompiledBuiltinBackend) (path : Path) :
    List (String × Json) → List (String × Json)
  | [] => []
  | entry :: entries =>
    (backend.sanitizeEntry path entry).toList ++ backend.sanitizeEntries path entries

def sanitizeEntry (backend : CompiledBuiltinBackend) (path : Path) :
    String × Json → Option (String × Json)
  | (key, value) => (backend.sanitizeJsonPreorderDfsAtPath (path ++ [key]) value).map (key, ·)

end

def sanitizeJsonPreorderDfs (value : Json) : Json :=
  (backend.sanitizeJsonPreorderDfsAtPath [] value).getD .null

variable {backend} {path : Path}

theorem sanitize_of_removes (h : backend.removes path = true) (value : Json) :
    backend.sanitizeJsonPreorderDfsAtPath path value = none := by
  cases value <;> rw [sanitizeJsonPreorderDfsAtPath, if_pos h]

theorem sanitizeItems_eq (index : Nat) (items : List Json) :
    backend.sanitizeItems path index items = items.mapIdx fun i item =>
      (backend.sanitizeJsonPreorderDfsAtPath (path ++ [toString (index + i)]) item).getD .null := by
  induction items generalizing index with
  | nil => rfl
  | cons item items ih =>
    rw [sanitizeItems, ih, mapIdx_cons]
    simp only [Nat.add_assoc, Nat.add_comm 1, Nat.add_zero]

theorem sanitizeEntries_eq (entries : Object) :
    backend.sanitizeEntries path entries = entries.filterMap fun entry =>
      (backend.sanitizeJsonPreorderDfsAtPath (path ++ [entry.1]) entry.2).map (entry.1, ·) := by
  induction entries with
  | nil => rfl
  | cons entry entries ih =>
    obtain ⟨key, value⟩ := entry
    rw [sanitizeEntries, sanitizeEntry, ih, filterMap_cons]
    cases backend.sanitizeJsonPreorderDfsAtPath (path ++ [key]) value <;> rfl

theorem sanitize_arr (h : backend.removes path = false) (items : List Json) :
    backend.sanitizeJsonPreorderDfsAtPath path (.arr items) = some (.arr (items.mapIdx fun i item =>
      (backend.sanitizeJsonPreorderDfsAtPath (path ++ [toString i]) item).getD .null)) := by
  rw [sanitizeJsonPreorderDfsAtPath, h, sanitizeItems_eq]
  simp

theorem sanitize_obj (h : backend.removes path = false) (entries : Object) :
    backend.sanitizeJsonPreorderDfsAtPath path (.obj entries) =
      some (.obj (entries.filterMap fun entry =>
        (backend.sanitizeJsonPreorderDfsAtPath (path ++ [entry.1]) entry.2).map (entry.1, ·))) := by
  rw [sanitizeJsonPreorderDfsAtPath, h, sanitizeEntries_eq]
  simp

end CompiledBuiltinBackend

/-! ### Parts of a value -/

/-- A part of a value and the path to it. -/
inductive At : Json → Path → Json → Prop
  | here (value : Json) : At value [] value
  | item {items : List Json} {i : Nat} {value part : Json} {path : Path} :
      items[i]? = some value → At value path part → At (.arr items) (toString i :: path) part
  | member {entries : Object} {key : String} {value part : Json} {path : Path} :
      (key, value) ∈ entries → At value path part → At (.obj entries) (key :: path) part

/-- Two values have the same structure and agree, except inside selected parts. -/
inductive AgreeOutside (selected : Path → Prop) : Path → Json → Json → Prop
  | hidden {path : Path} {value value' : Json} :
      selected path → AgreeOutside selected path value value'
  | same {path : Path} (value : Json) : AgreeOutside selected path value value
  | arr {path : Path} {items items' : List Json} : items.length = items'.length →
      (∀ (i : Nat) (value value' : Json), items[i]? = some value → items'[i]? = some value' →
        AgreeOutside selected (path ++ [toString i]) value value') →
      AgreeOutside selected path (.arr items) (.arr items')
  | obj {path : Path} {entries entries' : Object} :
      entries.map Prod.fst = entries'.map Prod.fst →
      (∀ (i : Nat) (entry entry' : String × Json), entries[i]? = some entry →
        entries'[i]? = some entry' → AgreeOutside selected (path ++ [entry.1]) entry.2 entry'.2) →
      AgreeOutside selected path (.obj entries) (.obj entries')

/-- A part that is kept. Selected items of an array become null, selected members of an object
disappear, and everything else has its place. -/
def Kept (selected : Path → Prop) (path : Path) : Json → Json → Prop
  | .arr items, kept =>
    ∃ items', kept = .arr items' ∧ items'.length = items.length ∧
      ∀ i, i < items.length → selected (path ++ [toString i]) → items'[i]? = some .null
  | .obj entries, kept =>
    ∃ entries', kept = .obj entries' ∧
      (entries'.map Prod.fst).Sublist (entries.map Prod.fst) ∧
      ∀ key, key ∈ entries'.map Prod.fst ↔
        key ∈ entries.map Prod.fst ∧ ¬ selected (path ++ [key])
  | value, kept => kept = value

/-! ### Removal -/

/-- A backend that removes the selected parts. -/
structure Removes (selected : Path → Prop) (backend : CompiledBuiltinBackend) : Prop where
  action : backend.action = .remove
  nonempty : backend.targetPathMatcher.isEmpty = false
  matches_iff : ∀ path, backend.targetPathMatcher.matches path = true ↔ selected path

open CompiledBuiltinBackend

variable {targetPaths targetPathGlobs : List String} {backend : CompiledBuiltinBackend}

theorem removes_of_new (h : new .remove targetPaths targetPathGlobs = .ok backend) :
    Removes (Selected targetPaths targetPathGlobs) backend := by
  unfold new at h
  split at h
  · cases h
  · split at h
    · cases h
    · split at h
      · cases h
      · next matcher hmatcher =>
        split at h
        · cases h
        · next hempty =>
          cases h
          refine ⟨rfl, ?_, TargetPathMatcher.matches_iff hmatcher⟩
          simpa [BuiltinAction.isRemove] using hempty

namespace Removes

variable {selected : Path → Prop} {backend : CompiledBuiltinBackend} {path : Path}

section

variable (h : Removes selected backend)
include h

theorem removes_iff : backend.removes path = true ↔ selected path := by
  rw [← h.matches_iff, removes, matchesCurrentPreorderPath, h.nonempty, h.action]
  simp [BuiltinAction.isRemove]

theorem removes_eq_false (hpath : ¬ selected path) : backend.removes path = false := by
  rwa [← h.removes_iff, Bool.not_eq_true] at hpath

theorem matches_eq_false (hpath : ¬ selected path) :
    backend.matchesCurrentPreorderPath path = false := by
  rw [← h.matches_iff, Bool.not_eq_true] at hpath
  rw [matchesCurrentPreorderPath, h.nonempty, hpath]
  rfl

/-- Only selected nodes are removed. -/
theorem sanitize_eq_none_iff (value : Json) :
    backend.sanitizeJsonPreorderDfsAtPath path value = none ↔ selected path := by
  by_cases hpath : selected path
  · simp [sanitize_of_removes (h.removes_iff.mpr hpath), hpath]
  · have hremoves := h.removes_eq_false hpath
    have hmatches := h.matches_eq_false hpath
    cases value <;> simp [sanitizeJsonPreorderDfsAtPath, hremoves, hmatches, hpath]

/-- Nothing inside a selected part influences the result. -/
theorem sanitize_congr {value value' : Json} (hagree : AgreeOutside selected path value value') :
    backend.sanitizeJsonPreorderDfsAtPath path value =
      backend.sanitizeJsonPreorderDfsAtPath path value' := by
  induction hagree with
  | hidden hselected =>
    rw [(h.sanitize_eq_none_iff _).mpr hselected, (h.sanitize_eq_none_iff _).mpr hselected]
  | same => rfl
  | @arr path items items' hlength _ ih =>
    by_cases hpath : selected path
    · rw [(h.sanitize_eq_none_iff _).mpr hpath, (h.sanitize_eq_none_iff _).mpr hpath]
    · have hremoves := h.removes_eq_false hpath
      rw [sanitize_arr hremoves, sanitize_arr hremoves]
      congr 2
      refine ext_getElem (by simpa using hlength) fun i hi hi' => ?_
      rw [length_mapIdx] at hi hi'
      rw [getElem_mapIdx, getElem_mapIdx,
        ih i items[i] items'[i] (getElem?_eq_getElem hi) (getElem?_eq_getElem hi')]
  | @obj path entries entries' hkeys _ ih =>
    by_cases hpath : selected path
    · rw [(h.sanitize_eq_none_iff _).mpr hpath, (h.sanitize_eq_none_iff _).mpr hpath]
    · have hremoves := h.removes_eq_false hpath
      rw [sanitize_obj hremoves, sanitize_obj hremoves]
      congr 2
      have hlength : entries.length = entries'.length := by
        simpa using congrArg List.length hkeys
      have hmap : (entries.map fun entry =>
            (backend.sanitizeJsonPreorderDfsAtPath (path ++ [entry.1]) entry.2).map (entry.1, ·)) =
          entries'.map fun entry =>
            (backend.sanitizeJsonPreorderDfsAtPath (path ++ [entry.1]) entry.2).map
              (entry.1, ·) := by
        refine ext_getElem (by simpa using hlength) fun i hi hi' => ?_
        rw [length_map] at hi hi'
        have hkey : entries[i].1 = entries'[i].1 := by
          have hat := congrArg (·[i]?) hkeys
          simpa [getElem?_eq_getElem hi, getElem?_eq_getElem hi'] using hat
        rw [getElem_map, getElem_map, ih i entries[i] entries'[i] (getElem?_eq_getElem hi)
          (getElem?_eq_getElem hi'), hkey]
      simpa [filterMap_map] using congrArg (List.filterMap id) hmap

end

/-- A part whose path is selected nowhere is kept. -/
theorem exists_kept (h : Removes selected backend) (path : Path) {value part : Json} {rest : Path}
    (hat : At value rest part) (hpath : ∀ front, front <+: rest → ¬ selected (path ++ front)) :
    ∃ value' part', backend.sanitizeJsonPreorderDfsAtPath path value = some value' ∧
      At value' rest part' ∧ Kept selected (path ++ rest) part part' := by
  induction hat generalizing path with
  | here value =>
    have hhere : ¬ selected path := by simpa using hpath [] nil_prefix
    have hremoves := h.removes_eq_false hhere
    have hmatches := h.matches_eq_false hhere
    rw [append_nil]
    cases value with
    | null | bool | num | str =>
      refine ⟨_, _, ?_, .here _, rfl⟩
      simp [sanitizeJsonPreorderDfsAtPath, hremoves, hmatches]
    | arr items =>
      refine ⟨_, _, sanitize_arr hremoves items, .here _, _, rfl, ?_, ?_⟩
      · rw [length_mapIdx]
      · intro i hi hselected
        rw [getElem?_mapIdx, getElem?_eq_getElem hi, Option.map_some,
          (h.sanitize_eq_none_iff _).mpr hselected]
        rfl
    | obj entries =>
      refine ⟨_, _, sanitize_obj hremoves entries, .here _, _, rfl, ?_, ?_⟩
      · refine SortedMap.map_filterMap_sublist (fun entry entry' hentry => ?_) entries
        obtain ⟨value, _, rfl⟩ := Option.map_eq_some_iff.mp hentry
        rfl
      · intro key
        simp only [mem_map, mem_filterMap, Option.map_eq_some_iff]
        constructor
        · rintro ⟨_, ⟨entry, hentry, value, hvalue, rfl⟩, rfl⟩
          exact ⟨⟨entry, hentry, rfl⟩, fun hselected =>
            by simp [(h.sanitize_eq_none_iff _).mpr hselected] at hvalue⟩
        · rintro ⟨⟨entry, hentry, rfl⟩, hselected⟩
          rw [← h.sanitize_eq_none_iff entry.2, ← ne_eq, Option.ne_none_iff_exists'] at hselected
          obtain ⟨value, hvalue⟩ := hselected
          exact ⟨_, ⟨entry, hentry, value, hvalue, rfl⟩, rfl⟩
  | @item items i value part rest hitem _ ih =>
    have hhere : ¬ selected path := by simpa using hpath [] nil_prefix
    obtain ⟨value', part', hvalue, hat, hkept⟩ := ih (path ++ [toString i]) fun front hfront =>
      by simpa using hpath (toString i :: front) (cons_prefix_cons.mpr ⟨rfl, hfront⟩)
    refine ⟨_, part', sanitize_arr (h.removes_eq_false hhere) items,
      .item ?_ hat, by simpa using hkept⟩
    rw [getElem?_mapIdx, hitem, Option.map_some, hvalue]
    rfl
  | @member entries key value part rest hmember _ ih =>
    have hhere : ¬ selected path := by simpa using hpath [] nil_prefix
    obtain ⟨value', part', hvalue, hat, hkept⟩ := ih (path ++ [key]) fun front hfront =>
      by simpa using hpath (key :: front) (cons_prefix_cons.mpr ⟨rfl, hfront⟩)
    refine ⟨_, part', sanitize_obj (h.removes_eq_false hhere) entries,
      .member (mem_filterMap.mpr ⟨_, hmember, ?_⟩) hat, by simpa using hkept⟩
    rw [hvalue]
    rfl

end Removes

/-- Removal hides everything inside the selected parts and keeps everything outside them. -/
theorem remove_noninterference (h : new .remove targetPaths targetPathGlobs = .ok backend) :
    (∀ value value', AgreeOutside (Selected targetPaths targetPathGlobs) [] value value' →
      backend.sanitizeJsonPreorderDfs value = backend.sanitizeJsonPreorderDfs value') ∧
    ∀ value path part, At value path part →
      (∀ front, front <+: path → ¬ Selected targetPaths targetPathGlobs front) →
      ∃ kept, At (backend.sanitizeJsonPreorderDfs value) path kept ∧
        Kept (Selected targetPaths targetPathGlobs) path part kept := by
  have hremoves := removes_of_new h
  refine ⟨fun value value' hagree => ?_, fun value path part hat hpath => ?_⟩
  · rw [sanitizeJsonPreorderDfs, hremoves.sanitize_congr hagree, sanitizeJsonPreorderDfs]
  · obtain ⟨value', kept, hvalue, hkept⟩ := hremoves.exists_kept [] hat hpath
    rw [sanitizeJsonPreorderDfs, hvalue]
    exact ⟨kept, hkept⟩

theorem remove_noninterference_secret :
    ∃ backend, new .remove ["/secret"] [] = .ok backend ∧
      backend.sanitizeJsonPreorderDfs (.obj [("name", .str "a"), ("secret", .str "b")]) =
        backend.sanitizeJsonPreorderDfs (.obj [("name", .str "a"), ("secret", .str "c")]) := by
  have hnew : new .remove ["/secret"] [] = .ok ⟨.remove, ⟨[.exact ["secret"]]⟩⟩ := rfl
  refine ⟨_, hnew, (remove_noninterference hnew).1 _ _ (.obj rfl fun i entry entry' hi hi' => ?_)⟩
  match i with
  | 0 =>
    cases hi
    cases hi'
    exact .same _
  | 1 =>
    cases hi
    exact .hidden (.inl ⟨_, mem_cons_self, rfl⟩)
  | _ + 2 => cases hi

end NemoRelay.Pii
