import Mathlib.Data.Set.Finite.List
import NemoRelay.Codec.Json

/-!
# Field names without dots

The dots of field names are replaced at every depth (`atof.rs`). A name that is taken already gets
a number, so that no member is lost.
-/

namespace NemoRelay.Observability

open SortedMap List

def sanitizedKey (key : String) : String :=
  String.ofList (key.toList.map fun c => if c = '.' then '_' else c)

def suffixedKey (key : String) (suffix : Nat) : String := key ++ "_" ++ toString suffix

theorem exists_free (object : Object) (key : String) :
    ∃ suffix, 2 ≤ suffix ∧ get object (suffixedKey key suffix) = none := by
  have hinjective : Function.Injective fun n => suffixedKey key (n + 2) := by
    intro a b h
    have hdigits := congrArg (Nat.ofDigitChars 10 ·.toList 0) (String.append_right_inj _ |>.mp h)
    simpa [Nat.toList_repr, Nat.ofDigitChars_toDigits] using hdigits
  by_contra! htaken
  refine (object.map Prod.fst).finite_toSet.not_infinite
    (Set.infinite_of_injective_forall_mem hinjective fun n => ?_)
  exact get_isSome_iff.mp (Option.isSome_iff_ne_none.mpr (htaken (n + 2) (Nat.le_add_left 2 n)))

def collisionFreeKey (object : Object) (key : String) : String :=
  if get object key = none then key else suffixedKey key (Nat.find (exists_free object key))

def insertRenamed (object : Object) (entry : String × Json) : Object :=
  insert object (collisionFreeKey object (sanitizedKey entry.1)) entry.2

/-- The sort is stable: the names with a dot are inserted first. -/
def renameKeys (old : Object) : Object :=
  (old.filter ('.' ∈ ·.1.toList) ++ old.filter ('.' ∉ ·.1.toList)).foldl insertRenamed []

mutual

def replaceDottedValueKeys : Json → Json
  | .obj object => .obj (renameKeys (replaceDottedEntries object))
  | .arr items => .arr (replaceDottedItems items)
  | .null => .null
  | .bool value => .bool value
  | .num value => .num value
  | .str text => .str text

def replaceDottedItems : List Json → List Json
  | [] => []
  | item :: items => replaceDottedValueKeys item :: replaceDottedItems items

def replaceDottedEntries : Object → Object
  | [] => []
  | entry :: entries => replaceDottedEntry entry :: replaceDottedEntries entries

def replaceDottedEntry : String × Json → String × Json
  | (key, value) => (key, replaceDottedValueKeys value)

end

/-! ### Renaming the members of one object -/

variable {object old : Object} {key : String}

theorem get_collisionFreeKey (object : Object) (key : String) :
    get object (collisionFreeKey object key) = none := by
  unfold collisionFreeKey
  split
  · assumption
  · exact (Nat.find_spec (exists_free object key)).2

theorem dot_notMem_collisionFreeKey (object : Object) (key : String) :
    '.' ∉ (collisionFreeKey object (sanitizedKey key)).toList := by
  have hkey : '.' ∉ (sanitizedKey key).toList := by
    simp only [sanitizedKey, String.toList_ofList, mem_map, not_exists, not_and]
    intro c _
    split <;> simp_all
  unfold collisionFreeKey
  split
  · exact hkey
  · simp only [suffixedKey, String.toList_append, mem_append, not_or]
    refine ⟨⟨hkey, by decide⟩, fun hmem => ?_⟩
    rw [show toString _ = Nat.repr _ from rfl, Nat.toList_repr] at hmem
    exact absurd (Nat.isDigit_of_mem_toDigits (by decide) (by decide) hmem) (by decide)

/-- What the loop has made of the members so far. -/
structure Renamed (old object : Object) : Prop where
  sorted : Sorted object
  dotless : ∀ entry ∈ object, '.' ∉ entry.1.toList
  values : (object.map Prod.snd).Perm (old.map Prod.snd)

theorem Renamed.insert (h : Renamed old object) (entry : String × Json) :
    Renamed (old ++ [entry]) (insertRenamed object entry) := by
  have hperm : (insertRenamed object entry).Perm (_ :: object) :=
    insert_perm (get_collisionFreeKey object (sanitizedKey entry.1))
  refine ⟨h.sorted.insert _ _, fun member hmember => ?_, ?_⟩
  · obtain rfl | hold := mem_cons.mp (hperm.mem_iff.mp hmember)
    · exact dot_notMem_collisionFreeKey object entry.1
    · exact h.dotless member hold
  · rw [map_append]
    exact (hperm.map Prod.snd).trans ((h.values.cons _).trans (perm_append_singleton _ _).symm)

theorem renamed_renameKeys (old : Object) : Renamed old (renameKeys old) := by
  have hfold : ∀ entries : Object, Renamed entries (entries.foldl insertRenamed []) := by
    intro entries
    induction entries using List.reverseRecOn with
    | nil => exact ⟨.nil, nofun, .nil⟩
    | append_singleton entries entry ih =>
      rw [foldl_append]
      exact ih.insert entry
  have h := hfold (old.filter ('.' ∈ ·.1.toList) ++ old.filter ('.' ∉ ·.1.toList))
  refine { h with values := h.values.trans (List.Perm.map _ ?_) }
  simpa using filter_append_perm (fun entry => decide ('.' ∈ entry.1.toList)) old

theorem renameKeys_eq_self (hsorted : Sorted object)
    (hdotless : ∀ entry ∈ object, '.' ∉ entry.1.toList) : renameKeys object = object := by
  rw [renameKeys, filter_eq_nil_iff.mpr (by simpa using hdotless),
    filter_eq_self.mpr (by simpa using hdotless), nil_append]
  induction object using List.reverseRecOn with
  | nil => rfl
  | append_singleton object entry ih =>
    obtain ⟨hrest, -, hlt⟩ := pairwise_append.mp hsorted
    rw [forall_mem_append, forall_mem_singleton] at hdotless
    have hbelow : ∀ other ∈ object, other.1 < entry.1 := fun other hother =>
      hlt other hother entry (mem_singleton_self _)
    have hkey : sanitizedKey entry.1 = entry.1 := by
      have hkept : ∀ c ∈ entry.1.toList, (if c = '.' then '_' else c) = id c := fun c hc =>
        if_neg fun (hdot : c = '.') => hdotless.2 (hdot ▸ hc)
      rw [sanitizedKey, map_congr_left hkept, map_id, String.ofList_toList]
    rw [foldl_concat, ih hrest hdotless.1, insertRenamed, hkey, collisionFreeKey,
      if_pos (get_of_forall_lt hbelow), insert_of_forall_lt hbelow]

/-! ### Every depth -/

/-- The name of a member, at any depth of the value. -/
inductive HasKey (key : String) : Json → Prop
  | own {entries : Object} {value : Json} (h : (key, value) ∈ entries) : HasKey key (.obj entries)
  | member {entries : Object} {entry : String × Json} (h : entry ∈ entries)
    (hvalue : HasKey key entry.2) : HasKey key (.obj entries)
  | item {items : List Json} {item : Json} (h : item ∈ items) (hitem : HasKey key item) :
    HasKey key (.arr items)

theorem replaceDottedItems_eq (items : List Json) :
    replaceDottedItems items = items.map replaceDottedValueKeys := by
  induction items with
  | nil => rfl
  | cons item items ih => rw [replaceDottedItems, ih, map_cons]

theorem replaceDottedEntries_eq (entries : Object) :
    replaceDottedEntries entries = mapValues (fun _ => replaceDottedValueKeys) entries := by
  induction entries with
  | nil => rfl
  | cons entry entries ih =>
    rw [replaceDottedEntries, ih, replaceDottedEntry]
    rfl

/-- No name has a dot afterwards, a second time changes nothing, and only names have changed. -/
structure DotsReplaced (value : Json) : Prop where
  dotless : ∀ key, HasKey key (replaceDottedValueKeys value) → '.' ∉ key.toList
  again : replaceDottedValueKeys (replaceDottedValueKeys value) = replaceDottedValueKeys value
  obj : ∀ entries, value = .obj entries → ∃ renamed, replaceDottedValueKeys value = .obj renamed ∧
    renamed.length = entries.length ∧ Sorted renamed ∧
    (renamed.map Prod.snd).Perm (entries.map fun entry => replaceDottedValueKeys entry.2)
  arr : ∀ items, value = .arr items →
    replaceDottedValueKeys value = .arr (items.map replaceDottedValueKeys)
  scalar : value.asObject = none → value.asArray = none → replaceDottedValueKeys value = value

/-- Two old names that become one are kept apart by a number. -/
theorem dotsReplaced (value : Json) : DotsReplaced value := by
  induction value using Json.induction with
  | null | bool | num | str =>
    refine ⟨fun _ h => ?_, rfl, fun _ h => ?_, fun _ h => ?_, fun _ _ => rfl⟩
    all_goals cases h
  | arr items ih =>
    have harr : replaceDottedValueKeys (.arr items) = .arr (items.map replaceDottedValueKeys) := by
      rw [replaceDottedValueKeys, replaceDottedItems_eq]
    refine ⟨fun key h => ?_, ?_, fun _ h => ?_, fun _ h => ?_, fun _ h => ?_⟩
    · rw [harr] at h
      obtain _ | _ | ⟨hitem, h⟩ := h
      obtain ⟨item, hold, rfl⟩ := mem_map.mp hitem
      exact (ih item hold).dotless key h
    · rw [harr, replaceDottedValueKeys, replaceDottedItems_eq, map_map]
      exact congrArg Json.arr (map_congr_left fun item hitem => (ih item hitem).again)
    · cases h
    · cases h
      exact harr
    · cases h
  | obj entries ih =>
    have hobj : replaceDottedValueKeys (.obj entries) =
        .obj (renameKeys (mapValues (fun _ => replaceDottedValueKeys) entries)) := by
      rw [replaceDottedValueKeys, replaceDottedEntries_eq]
    obtain ⟨hsorted, hdotless, hvalues⟩ :=
      renamed_renameKeys (mapValues (fun _ => replaceDottedValueKeys) entries)
    generalize renameKeys (mapValues (fun _ => replaceDottedValueKeys) entries) = renamed at *
    rw [mapValues, map_map] at hvalues
    -- every value of the result is one of those that were transformed
    have hfrom : ∀ entry ∈ renamed, ∃ old ∈ entries, replaceDottedValueKeys old.2 = entry.2 := by
      intro entry hentry
      exact mem_map.mp (hvalues.mem_iff.mp (mem_map_of_mem hentry))
    refine ⟨fun key h => ?_, ?_, fun _ h => ?_, fun _ h => ?_, fun h => ?_⟩
    · rw [hobj] at h
      obtain hown | ⟨hentry, h⟩ := h
      · exact hdotless _ hown
      · obtain ⟨old, hold, heq⟩ := hfrom _ hentry
        exact (ih old hold).dotless key (heq ▸ h)
    · have hsame : mapValues (fun _ => replaceDottedValueKeys) renamed = renamed := by
        refine (mapValues_eq_iff.mpr fun entry hentry => ?_).trans (mapValues_id renamed)
        obtain ⟨old, hold, heq⟩ := hfrom entry hentry
        rw [← heq, (ih old hold).again]
      rw [hobj, replaceDottedValueKeys, replaceDottedEntries_eq, hsame,
        renameKeys_eq_self hsorted hdotless]
    · cases h
      exact ⟨renamed, hobj, by simpa using hvalues.length_eq, hsorted, hvalues⟩
    · cases h
    · cases h

end NemoRelay.Observability
