import NemoRelay.Codec.Patch

/-!
# Fields of a request body

The members of a request body that the codecs read into typed fields, and how an edited field is
written back. Every field has a `FieldFormat` that reads and writes its values.
-/

namespace NemoRelay

open List hiding get

open SortedMap Json

/-- How the values of a field are read and written. What was read from some value is written in a
way that reads back. -/
structure FieldFormat (α : Type) where
  expected : String
  read : Json → Option α
  write : α → Json
  read_null : read .null = none
  read_write : ∀ value x, read value = some x → read (write x) = some x
  wf_write : ∀ value x, value.WF → read value = some x → (write x).WF

namespace FieldFormat

def bool : FieldFormat Bool where
  expected := "a boolean"
  read
    | .bool value => some value
    | _ => none
  write := .bool
  read_null := rfl
  read_write _ _ _ := rfl
  wf_write _ _ _ _ := rfl

def u64 : FieldFormat Nat where
  expected := "a non-negative integer"
  read := asU64
  write n := .num (.posInt n)
  read_null := rfl
  read_write _ _ _ := rfl
  wf_write _ _ _ _ := rfl

def i64 : FieldFormat Int where
  expected := "an integer"
  read := asI64
  write i := .num (.ofI64 i)
  read_null := rfl
  read_write value i h := by
    cases value with
    | num number =>
      cases number with
      | posInt n =>
        simp only [asI64, Number.asI64] at h
        split at h
        · cases h
          simp_all [asI64, Number.asI64, Number.ofI64]
        · cases h
      | negInt n =>
        cases h
        rfl
      | float => cases h
    | null | bool | str | arr | obj => cases h
  wf_write _ _ _ _ := rfl

/-- Numbers are written by `json_f64`. -/
def f64 : FieldFormat F64 where
  expected := "a number"
  read := asF64
  write f := .num (.float f)
  read_null := rfl
  read_write _ _ _ := rfl
  wf_write _ _ _ _ := rfl

def string : FieldFormat String where
  expected := "a string"
  read := asStr
  write := .str
  read_null := rfl
  read_write _ _ _ := rfl
  wf_write _ _ _ _ := rfl

/-- An object, as it is. -/
def object : FieldFormat Json where
  expected := "an object"
  read
    | .obj entries => some (.obj entries)
    | _ => none
  write := id
  read_null := rfl
  read_write value x h := by
    cases value <;> cases h
    rfl
  wf_write value x hvalue h := by
    cases value <;> cases h
    exact hvalue

/-- The items of an array. -/
def items : FieldFormat (List Json) where
  expected := "an array"
  read := asArray
  write := .arr
  read_null := rfl
  read_write _ _ _ := rfl
  wf_write value x hvalue h := by
    rw [← asArray_eq_some.mp h]
    exact hvalue

/-- A list of strings, as `serde` reads it. -/
def strings : FieldFormat (List String) where
  expected := "an array of strings"
  read value := value.asArray.bind fun items => items.mapM asStr
  write := Json.strings
  read_null := rfl
  read_write _ texts _ := mapM_asStr texts
  wf_write _ texts _ _ := wf_strings texts

theorem string_exact (value : Json) (text : String) (_ : value.WF)
    (h : string.read value = some text) : value = string.write text :=
  asStr_eq_some.mp h

theorem bool_exact (value : Json) (b : Bool) (_ : value.WF) (h : bool.read value = some b) :
    value = bool.write b := by
  cases value <;> cases h
  rfl

/-- The field holds a value of the format. -/
def Valid {α : Type} (format : FieldFormat α) (field : Option α) : Prop :=
  ∀ x, field = some x → ∃ value : Json, value.WF ∧ format.read value = some x

theorem valid_string (field : Option String) : string.Valid field :=
  fun text _ => ⟨.str text, rfl, rfl⟩

theorem valid_bool (field : Option Bool) : bool.Valid field := fun b _ => ⟨.bool b, rfl, rfl⟩

end FieldFormat

open FieldFormat

/-! ### Reading -/

/-- A member that may be absent or null. -/
def FieldFormat.readOptional {α : Type} (format : FieldFormat α) :
    Option Json → Option (Option α)
  | none | some .null => some none
  | some value => (format.read value).map some

def optionalField {α : Type} (format : FieldFormat α) (obj : Object) (key surface : String) :
    Except FlowError (Option α) :=
  okOr (format.readOptional (get obj key)) s!"{surface} {key} must be {format.expected} or null"

def optionalBool := optionalField bool
def optionalU64 := optionalField u64
def optionalI64 := optionalField i64
def optionalF64 := optionalField f64
def optionalString := optionalField string
def optionalObject := optionalField object

variable (obj : Object)

/-- No member has another key. -/
def onlyKeys (allowed : List String) : Bool :=
  obj.all fun entry => allowed.contains entry.1

/-- The members with other keys. -/
def otherKeys (modeled : List String) : Object :=
  obj.filter fun entry => !modeled.contains entry.1

/-! ### Writing -/

def setOrRemoveJson (key : String) : Option Json → Object
  | some value => insert obj key value
  | none => erase obj key

def patchExtraFields (obj baseline edited : Object) : Object :=
  overlay Prod.snd baseline (removeDeleted obj baseline edited) edited

/-! ### Read after write -/

variable {member : Option Json}

section Field

variable {α : Type} {format : FieldFormat α} {obj : Object} {key surface : String}

/-- The member of a field that reads as the given value. -/
def FieldFormat.Reads (format : FieldFormat α) (member : Option Json) : Option α → Prop
  | some x => ∃ value, member = some value ∧ format.read value = some x
  | none => member = none ∨ member = some .null

variable {field : Option α}

theorem FieldFormat.readOptional_eq_some :
    format.readOptional member = some field ↔ format.Reads member field := by
  fun_cases readOptional format member with
  | case1 => cases field <;> simp [FieldFormat.Reads]
  | case2 => cases field <;> simp [FieldFormat.Reads, format.read_null]
  | case3 value hnull => cases field <;> simp_all [FieldFormat.Reads]

theorem optionalField_eq_ok :
    optionalField format obj key surface = .ok field ↔ format.Reads (get obj key) field := by
  rw [optionalField, okOr_eq_ok, readOptional_eq_some]

theorem FieldFormat.Reads.valid (h : format.Reads member field)
    (hmember : ∀ value, member = some value → value.WF) : format.Valid field := by
  rintro x rfl
  obtain ⟨value, hvalue, hread⟩ := h
  exact ⟨value, hmember value hvalue, hread⟩

theorem FieldFormat.Valid.reads_write (h : format.Valid field) :
    format.Reads (field.map format.write) field := by
  cases field with
  | none => exact Or.inl rfl
  | some x =>
    obtain ⟨value, -, hread⟩ := h x rfl
    exact ⟨format.write x, rfl, format.read_write value x hread⟩

theorem FieldFormat.Valid.wf_write (h : format.Valid field) {value : Json}
    (hvalue : field.map format.write = some value) : value.WF := by
  obtain ⟨x, rfl, rfl⟩ := Option.map_eq_some_iff.mp hvalue
  obtain ⟨value, hwf, hread⟩ := h x rfl
  exact format.wf_write value x hwf hread

theorem get_setOrRemoveJson (obj : Object) (key : String) (value : Option Json) (key' : String) :
    get (setOrRemoveJson obj key value) key' =
      if key' = key then value else get obj key' := by
  cases value with
  | none => exact get_erase obj key key'
  | some value => exact get_insert obj key value key'

theorem wf_setOrRemoveJson (hobj : (Json.obj obj).WF) (key : String) {value : Option Json}
    (hvalue : ∀ v, value = some v → v.WF) : (Json.obj (setOrRemoveJson obj key value)).WF := by
  cases value with
  | none => exact hobj.filter _
  | some value => exact hobj.insert key (hvalue value rfl)

end Field

/-- Two objects with the same members outside the given keys. -/
def SameExcept (keys : List String) (m n : Object) : Prop :=
  ∀ key, key ∉ keys → get m key = get n key

variable {keys : List String} {key : String}

theorem sameExcept_setOrRemoveJson (hkey : key ∈ keys) (value : Option Json) :
    SameExcept keys (setOrRemoveJson obj key value) obj := by
  intro key' hkey'
  rw [get_setOrRemoveJson, if_neg]
  rintro rfl
  exact hkey' hkey

variable {m n : Object} {keys' : List String}

section

variable (h : SameExcept keys m n)
include h

theorem SameExcept.trans {p : Object} (h' : SameExcept keys' n p) :
    SameExcept (keys ++ keys') m p := by
  intro key hkey
  rw [mem_append, not_or] at hkey
  exact (h key hkey.1).trans (h' key hkey.2)

theorem SameExcept.mono (hkeys : keys ⊆ keys') : SameExcept keys' m n :=
  fun key hkey => h key fun hmem => hkey (hkeys hmem)

theorem SameExcept.on (hkeys : ∀ key ∈ keys', key ∉ keys) : ∀ key ∈ keys', get m key = get n key :=
  fun key hkey => h key (hkeys key hkey)

end

/-! ### Records of fields -/

/-- A field of a record `S` that is kept in one member of the body. -/
structure Field (S : Type) where
  key : String
  Value : Type
  decEq : DecidableEq Value
  value : S → Option Value
  Reads : Option Json → Option Value → Prop
  write : Value → Json
  reads_write : ∀ member x, (∀ value, member = some value → value.WF) → Reads member x →
    Reads (x.map write) x ∧ ∀ value, x.map write = some value → value.WF

namespace Field

variable {S : Type}

/-- A field that may be absent or null. -/
def optional {α : Type} [DecidableEq α] (format : FieldFormat α) (key : String)
    (value : S → Option α) : Field S where
  key
  Value := α
  decEq := inferInstance
  value
  Reads := format.Reads
  write := format.write
  reads_write _ _ hmember h :=
    ⟨(h.valid hmember).reads_write, fun _ => (h.valid hmember).wf_write⟩

/-- A member that is kept as it is. -/
def raw (key : String) (value : S → Option Json) : Field S where
  key
  Value := Json
  decEq := inferInstance
  value
  Reads member x := member = x
  write := id
  reads_write := by
    rintro member _ hmember rfl
    rw [Option.map_id_fun, id]
    exact ⟨rfl, hmember⟩

instance (field : Field S) : DecidableEq field.Value := field.decEq

/-- Writes the field if it was edited. -/
def patch (field : Field S) (edited before : S) (obj : Object) : Object :=
  if field.value edited ≠ field.value before then
    setOrRemoveJson obj field.key ((field.value edited).map field.write)
  else obj

end Field

/-- Writes all edited fields of a record. -/
def patchRecord {S : Type} (fields : List (Field S)) (edited before : S) (obj : Object) : Object :=
  fields.foldl (fun obj field => field.patch edited before obj) obj

/-- The body holds the fields of a record. -/
def ReadsRecord {S : Type} (fields : List (Field S)) (obj : Object) (record : S) : Prop :=
  ∀ field ∈ fields, field.Reads (get obj field.key) (field.value record)

section Record

variable {S : Type} {fields : List (Field S)} {obj obj' : Object} {edited before : S}

theorem Field.get_patch (field : Field S) (edited before : S) (obj : Object) (key : String) :
    get (field.patch edited before obj) key =
      if key = field.key ∧ field.value edited ≠ field.value before then
        (field.value edited).map field.write
      else get obj key := by
  unfold Field.patch
  by_cases hsame : field.value edited = field.value before
  · simp [hsame]
  · simp [hsame, get_setOrRemoveJson]

theorem Field.wf_patch (field : Field S) (hobj : (Json.obj obj).WF)
    (hedited : ∀ value, (field.value edited).map field.write = some value → value.WF) :
    (Json.obj (field.patch edited before obj)).WF := by
  unfold Field.patch
  split
  · exact wf_setOrRemoveJson hobj _ hedited
  · exact hobj

@[simp] theorem patchRecord_self (record : S) (obj : Object) :
    patchRecord fields record record obj = obj := by
  induction fields with
  | nil => rfl
  | cons field fields ih =>
    rw [patchRecord, foldl_cons]
    rw [Field.patch, if_neg (not_not.mpr rfl)]
    exact ih

theorem get_patchRecord_of_not_mem {key : String} (h : key ∉ fields.map Field.key) :
    get (patchRecord fields edited before obj) key = get obj key := by
  induction fields generalizing obj with
  | nil => rfl
  | cons field fields ih =>
    rw [map_cons, mem_cons, not_or] at h
    rw [patchRecord, foldl_cons, ← patchRecord, ih h.2, Field.get_patch,
      if_neg fun hkey => h.1 hkey.1]

theorem sameExcept_patchRecord :
    SameExcept (fields.map Field.key) (patchRecord fields edited before obj) obj :=
  fun _ => get_patchRecord_of_not_mem

theorem get_patchRecord {field : Field S} (hkeys : (fields.map Field.key).Nodup)
    (hfield : field ∈ fields) :
    get (patchRecord fields edited before obj) field.key =
      if field.value edited ≠ field.value before then (field.value edited).map field.write
      else get obj field.key := by
  induction fields generalizing obj with
  | nil => cases hfield
  | cons first fields ih =>
    rw [map_cons, nodup_cons] at hkeys
    rw [patchRecord, foldl_cons, ← patchRecord]
    obtain rfl | hfield := mem_cons.mp hfield
    · rw [get_patchRecord_of_not_mem hkeys.1, Field.get_patch]
      simp
    · have hne : field.key ≠ first.key := by
        intro hkey
        exact hkeys.1 (hkey ▸ mem_map_of_mem hfield)
      rw [ih hkeys.2 hfield, Field.get_patch]
      simp [hne]

/-- A patched record reads as the edited one. -/
theorem ReadsRecord.patch (hkeys : (fields.map Field.key).Nodup)
    (hbefore : ReadsRecord fields obj before) (hedited : ReadsRecord fields obj' edited)
    (hobj' : (Json.obj obj').WF) :
    ReadsRecord fields (patchRecord fields edited before obj) edited := by
  intro field hfield
  rw [get_patchRecord hkeys hfield]
  by_cases hsame : field.value edited = field.value before
  · rw [if_neg (not_not.mpr hsame), hsame]
    exact hbefore field hfield
  · rw [if_pos hsame]
    exact (field.reads_write _ _ (fun _ => hobj'.member) (hedited field hfield)).1

theorem ReadsRecord.wf_patch (hedited : ReadsRecord fields obj' edited)
    (hobj' : (Json.obj obj').WF) (hobj : (Json.obj obj).WF) :
    (Json.obj (patchRecord fields edited before obj)).WF := by
  induction fields generalizing obj with
  | nil => exact hobj
  | cons field fields ih =>
    have hfield := hedited field mem_cons_self
    refine ih (fun field hfield => hedited field (mem_cons_of_mem _ hfield)) ?_
    exact field.wf_patch hobj (field.reads_write _ _ (fun _ => hobj'.member) hfield).2

theorem ReadsRecord.congr (h : ReadsRecord fields obj before)
    (hget : ∀ key ∈ fields.map Field.key, get obj' key = get obj key) :
    ReadsRecord fields obj' before := by
  intro field hfield
  rw [hget _ (mem_map_of_mem hfield)]
  exact h field hfield

end Record

/-! ### Sets of keys -/

variable {obj : Object} {allowed : List String}

theorem onlyKeys_iff :
    onlyKeys obj allowed = true ↔
      ∀ key, (get obj key).isSome → key ∈ allowed := by
  simp only [onlyKeys, all_eq_true, contains_iff_mem, get_isSome_iff, mem_map]
  constructor
  · rintro h key ⟨entry, hentry, rfl⟩
    exact h entry hentry
  · intro h entry hentry
    exact h entry.1 ⟨entry, hentry, rfl⟩

theorem onlyKeys_insertFields (fields : List (String × Option Json)) :
    onlyKeys (insertFields [] fields) (fields.map Prod.fst) = true := by
  refine onlyKeys_iff.mpr fun key hkey => ?_
  by_contra hmem
  rw [get_insertFields, fieldOf_eq_none hmem] at hkey
  simp at hkey

theorem get_otherKeys (obj : Object) (modeled : List String) (key : String) :
    get (otherKeys obj modeled) key =
      if key ∈ modeled then none else get obj key := by
  rw [otherKeys, get_filter fun key => !modeled.contains key]
  by_cases h : key ∈ modeled <;> simp [h]

variable {modeled : List String}

theorem otherKeys_congr (hm : Sorted m) (hn : Sorted n)
    (h : ∀ key, key ∉ modeled → get m key = get n key) :
    otherKeys m modeled = otherKeys n modeled := by
  refine ext (hm.filter _) (hn.filter _) fun key => ?_
  rw [get_otherKeys, get_otherKeys]
  split
  · rfl
  · rename_i hkey
    exact h key hkey

variable {fields : List (String × Option Json)}

/-- Writing the modelled members of an object over its other members gives the object back. -/
theorem insertFields_otherKeys (hobj : Sorted obj) (hkeys : fields.map Prod.fst = modeled)
    (hmodeled : ∀ key ∈ modeled, fieldOf fields key = get obj key) :
    insertFields (otherKeys obj modeled) fields = obj := by
  refine ext (sorted_insertFields (hobj.filter _) fields) hobj fun key => ?_
  rw [get_insertFields, get_otherKeys]
  by_cases hkey : key ∈ modeled
  · rw [hmodeled key hkey, if_pos hkey, Option.or_none]
  · rw [fieldOf_eq_none (hkeys ▸ hkey), if_neg hkey, Option.none_or]

/-- Writing all members of an object gives the object back. -/
theorem insertFields_onlyKeys (hobj : Sorted obj) (hkeys : fields.map Prod.fst = modeled)
    (honly : onlyKeys obj modeled = true)
    (hmodeled : ∀ key ∈ modeled, fieldOf fields key = get obj key) :
    insertFields [] fields = obj := by
  have hother : otherKeys obj modeled = [] := by
    refine filter_eq_nil_iff.mpr fun entry hentry => ?_
    simpa using all_eq_true.mp honly entry hentry
  rw [← hother]
  exact insertFields_otherKeys hobj hkeys hmodeled

theorem insertFields_payload {kind payload : Json}
    (hobj : Sorted obj) (htype : get obj "type" = some kind)
    (hpayload : get obj key = some payload) :
    insertFields (otherKeys obj ["type", key]) [("type", some kind), (key, some payload)] =
      obj := by
  refine insertFields_otherKeys hobj rfl fun key' hkey' => ?_
  simp only [fieldOf]
  by_cases hkey : key' = key
  · simp [hkey, hpayload]
  · obtain rfl : key' = "type" := by simpa [hkey] using hkey'
    simp [hkey, htype]

/-- Patching the unmodelled members leaves the modelled ones alone and replaces all others. -/
theorem get_patchExtraFields {obj original edited : Object} (hedited : Sorted edited)
    (hobj : ∀ key, key ∉ modeled → get obj key = get original key) (key : String) :
    get
      (patchExtraFields obj (otherKeys original modeled) (otherKeys edited modeled)) key =
      if key ∈ modeled then get obj key else get edited key := by
  have hsorted : Sorted (otherKeys edited modeled) := hedited.filter _
  rw [patchExtraFields, get_overlay hsorted, get_removeDeleted, get_otherKeys, get_otherKeys]
  by_cases hkey : key ∈ modeled
  · simp [hkey]
  · simp only [hkey, hobj key hkey]
    cases get edited key with
    | none =>
      cases get original key <;> rfl
    | some value =>
      by_cases hsame : get original key = some value <;> simp [hsame]

theorem sorted_patchExtraFields (hobj : Sorted obj)
    (baseline edited : Object) : Sorted (patchExtraFields obj baseline edited) :=
  (hobj.removeDeleted _ _).overlay _ _ _

theorem patchExtraFields_self (hobj : Sorted obj) (modeled : List String) :
    patchExtraFields obj (otherKeys obj modeled) (otherKeys obj modeled) = obj := by
  refine ext (sorted_patchExtraFields hobj _ _) hobj fun key => ?_
  rw [get_patchExtraFields hobj fun _ _ => rfl, ite_self]

/-! ### Members that may be null -/

/-- Two members that are equal, or both null or absent where null is allowed. -/
def SameUpToNull (nullable : Prop) (a b : Option Json) : Prop :=
  a = b ∨ nullable ∧ a.getD .null = .null ∧ b.getD .null = .null

variable {original : Option Json}

theorem patchedMember_original {edited : Option Json}
    (horiginal : ∀ value, original = some value → value.WF)
    (hedited : ∀ value, edited = some value → value.WF) :
    patchedMember original original edited = edited := by
  cases original with
  | none => cases edited <;> rfl
  | some value =>
    cases edited with
    | none => rfl
    | some editedValue =>
      rw [patchedMember, patchChangedJson_original (horiginal _ rfl) (hedited _ rfl)]

theorem patchedMember_same (member : Option Json) :
    patchedMember member member member = member := by
  cases member with
  | none => rfl
  | some value => rw [patchedMember, patchChangedJson_baseline]

theorem patchedMember_str (before edited : String) :
    patchedMember (some (.str before)) (some (.str before)) (some (.str edited)) =
      some (.str edited) :=
  patchedMember_original (by simp) (by simp)

variable {nullable : Prop} {baseline edited : Option Json}

theorem SameUpToNull.patchedMember (h : SameUpToNull nullable original baseline)
    (horiginal : ∀ value, original = some value → value.WF)
    (hedited : ∀ value, edited = some value → value.WF) :
    SameUpToNull nullable (patchedMember original baseline edited) edited := by
  obtain rfl | ⟨hnullable, hor, hba⟩ := h
  · exact Or.inl (patchedMember_original horiginal hedited)
  cases baseline with
  | none =>
    cases edited with
    | none =>
      right
      cases original <;> exact ⟨hnullable, hor, rfl⟩
    | some value =>
      left
      cases original <;> rfl
  | some baselineValue =>
    obtain rfl : baselineValue = .null := hba
    cases original with
    | some originalValue =>
      obtain rfl : originalValue = .null := hor
      exact Or.inl (patchedMember_original horiginal hedited)
    | none =>
      cases edited with
      | none => exact Or.inl rfl
      | some value =>
        by_cases hvalue : Json.null = value
        · subst hvalue
          exact Or.inr ⟨hnullable, rfl, rfl⟩
        · left
          rw [NemoRelay.patchedMember, if_neg hvalue]

theorem SameUpToNull.reads {α : Type} {format : FieldFormat α} {a b : Option Json}
    {field : Option α} (h : SameUpToNull nullable a b) (hb : format.Reads b field) :
    format.Reads a field := by
  obtain rfl | ⟨-, ha, hbnull⟩ := h
  · exact hb
  · cases field with
    | none =>
      cases a with
      | none => exact Or.inl rfl
      | some value => exact Or.inr (congrArg some ha)
    | some x =>
      obtain ⟨value, rfl, hread⟩ := hb
      obtain rfl : value = .null := hbnull
      rw [format.read_null] at hread
      cases hread

/-- A format that reads only what it writes finds the written form, up to an explicit null. -/
theorem FieldFormat.Reads.sameUpToNull {α : Type} {format : FieldFormat α} (hnullable : nullable)
    (hexact : ∀ value x, value.WF → format.read value = some x → value = format.write x)
    {field : Option α} (h : format.Reads member field)
    (hmember : ∀ value, member = some value → value.WF) :
    SameUpToNull nullable member (field.map format.write) := by
  cases field with
  | none =>
    obtain rfl | rfl := h
    · exact Or.inl rfl
    · exact Or.inr ⟨hnullable, rfl, rfl⟩
  | some x =>
    obtain ⟨value, rfl, hread⟩ := h
    exact Or.inl (congrArg some (hexact value x (hmember value rfl) hread))

/-- A member that is patched with the written forms of a field reads as the edited field. -/
theorem FieldFormat.Reads.patchedMember {α : Type} {format : FieldFormat α}
    (hexact : ∀ value x, value.WF → format.read value = some x → value = format.write x)
    {before edited : Option α} (hbefore : format.Reads member before)
    (hmember : ∀ value, member = some value → value.WF) (hedited : format.Valid edited) :
    format.Reads
      (patchedMember member (before.map format.write) (edited.map format.write)) edited := by
  have hsame := hbefore.sameUpToNull trivial hexact hmember
  exact (hsame.patchedMember hmember fun _ => hedited.wf_write).reads hedited.reads_write

theorem patchedMember_isSome
    (h : (patchedMember original baseline edited).isSome) : original.isSome ∨ edited.isSome := by
  revert h
  fun_cases patchedMember original baseline edited <;> simp_all

/-- Two objects with the same members, up to explicit nulls. -/
def Similar (nullable : String → Prop) (m n : Object) : Prop :=
  ∀ key, SameUpToNull (nullable key) (get m key) (get n key)

theorem Similar.refl (nullable : String → Prop) (m : Object) : Similar nullable m m :=
  fun _ => Or.inl rfl

variable {nullable : String → Prop}

theorem Similar.get_eq (h : Similar nullable m n)
    (hkey : ¬ nullable key) : get m key = get n key := by
  obtain heq | ⟨hnullable, -⟩ := h key
  · exact heq
  · exact absurd hnullable hkey

/-- Patching an object that the baseline is similar to gives an object similar to the edit. -/
theorem Similar.patch {original baseline edited : Object}
    (h : Similar nullable original baseline) (horiginal : (Json.obj original).WF)
    (hedited : (Json.obj edited).WF) :
    ∃ patched, patchChangedJson (.obj original) (.obj baseline) (.obj edited) = .obj patched ∧
      (Json.obj patched).WF ∧ Similar nullable patched edited := by
  refine patchChangedJson_cases (motive := fun value => ∃ patched, value = .obj patched ∧
    (Json.obj patched).WF ∧ Similar nullable patched edited) horiginal hedited ?_ ?_ nofun ?_
  · rintro ⟨⟩
    exact ⟨original, rfl, horiginal, h⟩
  · exact ⟨edited, rfl, hedited, Similar.refl nullable edited⟩
  · rintro _ _ _ patched ⟨⟩ ⟨⟩ ⟨⟩ ⟨-, -, hpatched, hget⟩
    refine ⟨patched, rfl, hpatched, fun key => ?_⟩
    rw [hget]
    exact (h key).patchedMember (fun _ => horiginal.member) (fun _ => hedited.member)

/-- A patched object has only the keys of the original and of the edit. -/
theorem onlyKeys_patched {original patched : Object} {baseline : String → Option Json}
    (horiginal : onlyKeys original allowed = true) (hfields : fields.map Prod.fst = allowed)
    (hpatched : ∀ key, get patched key =
      patchedMember (get original key) (baseline key) (fieldOf fields key)) :
    onlyKeys patched allowed = true := by
  refine onlyKeys_iff.mpr fun key hkey => ?_
  rw [hpatched] at hkey
  obtain hkey | hkey := patchedMember_isSome hkey
  · exact onlyKeys_iff.mp horiginal key hkey
  · by_contra hmem
    rw [fieldOf_eq_none (hfields ▸ hmem)] at hkey
    simp at hkey

end NemoRelay
