import NemoRelay.Codec.Request

/-!
# Patching the original body

How the codecs carry an edit into the JSON a request came from: edited items are aligned with the
baseline items they stem from, and a changed value is merged into the original value member by
member. Members that neither the baseline nor the edit mentions stay as they are, at any depth.
-/

namespace NemoRelay

open List hiding get

open SortedMap Json

/-! ### Identity of calls and results -/

/-- The namespace of a kind of item, and the member that identifies such an item in it. -/
def identityKey (entries : Object) : String → Option (String × String)
  | "tool" => some ("result", "tool_call_id")
  | "tool_result" =>
    some ("result",
      if (get entries "tool_use_id").isSome then "tool_use_id" else "call_id")
  | "function_call_output" => some ("result", "call_id")
  | "tool_call" | "function_call" => some ("call", "call_id")
  | "tool_use" | "function" | "FUNCTION" => some ("call", "id")
  | _ => none

mutual

def toolItemIdentity : Json → Option (String × String)
  | .obj entries =>
    let kind :=
      ((get entries "role").or (get entries "type")).bind asStr
    if kind = some "provider_native" then nativeIdentity entries
    else do
      let (namespaceOf, key) ← identityKey entries (← kind)
      let id ← (get entries key).bind asStr
      if id = "" then none else some (namespaceOf, id)
  | .null | .bool _ | .num _ | .str _ | .arr _ => none

/-- The identity of the member `value`. -/
def nativeIdentity : List (String × Json) → Option (String × String)
  | [] => none
  | entry :: entries => if entry.1 = "value" then entryIdentity entry else nativeIdentity entries

def entryIdentity : String × Json → Option (String × String)
  | (_, value) => toolItemIdentity value

end

/-! ### Alignment -/

/-- The state of `align_changed_items`: for every edited item the baseline item it stems from, which
baseline items are taken, and whether items were moved, added or removed. -/
structure Alignment where
  aligned : List (Option Nat)
  used : List Bool
  structurallyChanged : Bool

namespace Alignment

variable (alignment : Alignment)

def isAligned (index : Nat) : Bool :=
  (alignment.aligned[index]?).join.isSome

def isUsed (index : Nat) : Bool := (alignment.used[index]?).getD false

def place (editedIndex baselineIndex : Nat) : Alignment :=
  { alignment with
    aligned := alignment.aligned.set editedIndex (some baselineIndex)
    used := alignment.used.set baselineIndex true }

/-- Places an item and notes whether it moved. -/
def move (editedIndex baselineIndex : Nat) : Alignment :=
  { alignment.place editedIndex baselineIndex with
    structurallyChanged :=
      alignment.structurallyChanged || decide (baselineIndex ≠ editedIndex) }

end Alignment

section Align

variable {α : Type} [DecidableEq α]

/-- First pass: items that are equal at the same position. -/
def alignPositions (edited baseline : List α) : Alignment :=
  (List.range (min edited.length baseline.length)).foldl (fun alignment index =>
      if edited[index]? = baseline[index]? then alignment.place index index else alignment)
    { aligned := List.replicate edited.length none
      used := List.replicate baseline.length false
      structurallyChanged := decide (edited.length ≠ baseline.length) }

/-- Second pass: the first free baseline item that is equal. -/
def alignEqual (edited baseline : List α) (alignment : Alignment) : Alignment :=
  edited.zipIdx.foldl
    (fun alignment (item, index) =>
      if alignment.isAligned index then alignment
      else
        match (baseline.zip alignment.used).findIdx? fun (candidate, used) =>
            !used && candidate = item with
        | some baselineIndex => alignment.move index baselineIndex
        | none => alignment)
    alignment

/-- Third pass: a call or result whose identity occurs exactly once on both sides. -/
def alignIdentities (editedIds baselineIds : List (Option (String × String)))
    (alignment : Alignment) : Alignment :=
  editedIds.zipIdx.foldl (fun alignment (identity, index) =>
      if identity.isNone || alignment.isAligned index || editedIds.count identity != 1 ||
          baselineIds.count identity != 1 then alignment
      else
        match baselineIds.findIdx? (· = identity) with
        | some baselineIndex =>
          if alignment.isUsed baselineIndex then alignment
          else alignment.move index baselineIndex
        | none => alignment)
    alignment

/-- Last pass: a single item that was edited in place. -/
def alignEditedInPlace (editedIds baselineIds : List (Option (String × String)))
    (alignment : Alignment) : List (Option Nat) :=
  match alignment.aligned.zipIdx.filterMap fun (item, index) =>
      if item.isNone then some index else none with
  | [index] =>
    if !alignment.structurallyChanged && !alignment.isUsed index &&
        (editedIds[index]?).join.isNone && (baselineIds[index]?).join.isNone then
      alignment.aligned.set index (some index)
    else alignment.aligned
  | _ => alignment.aligned

variable [Serialize α]

def alignChangedItems (edited baseline : List α) : List (Option Nat) :=
  let editedIds := edited.map fun item => toolItemIdentity (toValue item)
  let baselineIds := baseline.map fun item => toolItemIdentity (toValue item)
  alignEditedInPlace editedIds baselineIds <|
    alignIdentities editedIds baselineIds <|
      alignEqual edited baseline <| alignPositions edited baseline

end Align

/-! ### Patches -/

mutual

def patchChangedJson (original baseline edited : Json) : Json :=
  if baseline = edited then original
  else
    match original, baseline, edited with
    | .obj original, .obj baseline, .obj edited =>
      if get baseline "type" ≠ get edited "type" ∨
          get baseline "role" ≠ get edited "role" then .obj edited
      else
        .obj (patchEntries original baseline (removeDeleted original baseline edited) edited)
    | .arr original, .arr baseline, .arr edited =>
      .arr (patchItems original baseline (alignChangedItems edited baseline) edited)
    | _, _, edited => edited
  termination_by structural edited

/-- The loop over the edited members. -/
def patchEntries (original baseline patched : Object) : List (String × Json) → Object
  | [] => patched
  | entry :: edited =>
    patchEntries original baseline
      (if get baseline entry.1 = some entry.2 then patched
      else insert patched entry.1 (patchEntry original baseline entry))
      edited
  termination_by structural edited => edited

def patchEntry (original baseline : Object) : String × Json → Json
  | (key, editedValue) =>
    match get original key, get baseline key with
    | some originalValue, some baselineValue =>
      patchChangedJson originalValue baselineValue editedValue
    | _, _ => editedValue
  termination_by structural entry => entry

/-- The loop of `patch_changed_array`. -/
def patchItems (original baseline : List Json) (alignment : List (Option Nat)) :
    List Json → List Json
  | [] => []
  | editedValue :: edited =>
    (match alignment.head?.join with
      | some index =>
        match original[index]?, baseline[index]? with
        | some originalValue, some baselineValue =>
          patchChangedJson originalValue baselineValue editedValue
        | _, _ => editedValue
      | none => editedValue) :: patchItems original baseline alignment.tail edited
  termination_by structural edited => edited

end

section Encode

variable {α : Type} [DecidableEq α]

/-- The original and the baseline item at an aligned position. -/
def alignedItem (baseline : List α) (original : Option (List Json)) (aligned : Option Nat) :
    Option (Json × α) := do
  let index ← aligned
  let baselineItem ← baseline[index]?
  let originalItem ← (← original)[index]?
  return (originalItem, baselineItem)

def encodeChangedItem (encode : α → Except FlowError Json)
    (patch : Json → α → α → Json → Json → Except FlowError Json) (item : α) :
    Option (Json × α) → Except FlowError Json
  | some (originalItem, baselineItem) =>
    if baselineItem = item then .ok originalItem
    else do
      let baselineValue ← encode baselineItem
      let editedValue ← encode item
      patch originalItem baselineItem item baselineValue editedValue
  | none => encode item

variable [Serialize α]

def encodeChangedItemsWithPatch (edited baseline : List α) (original : Option (List Json))
    (encode : α → Except FlowError Json)
    (patch : Json → α → α → Json → Json → Except FlowError Json) : Except FlowError (List Json) :=
  let alignment :=
    if original.isSome then alignChangedItems edited baseline
    else List.replicate edited.length none
  edited.zipIdx.mapM fun (item, index) =>
    encodeChangedItem encode patch item (alignedItem baseline original (alignment[index]?).join)

def encodeChangedItems (edited baseline : List α) (original : Option (List Json))
    (encode : α → Except FlowError Json) : Except FlowError (List Json) :=
  encodeChangedItemsWithPatch edited baseline original encode
    fun original _ _ baselineValue editedValue =>
      .ok (patchChangedJson original baselineValue editedValue)

end Encode

/-! ### Patched values -/

/-- A member after the patch, from the member of the original, the baseline and the edit. -/
def patchedMember : (original baseline edited : Option Json) → Option Json
  | some originalValue, some baselineValue, some editedValue =>
    some (patchChangedJson originalValue baselineValue editedValue)
  | none, some baselineValue, some editedValue =>
    if baselineValue = editedValue then none else some editedValue
  | _, none, some editedValue => some editedValue
  | _, some _, none => none
  | original, none, none => original

/-- A value that was not edited keeps the original. -/
theorem patchChangedJson_baseline (original baseline : Json) :
    patchChangedJson original baseline baseline = original := by
  unfold patchChangedJson
  rw [if_pos rfl]

theorem patchEntries_eq_overlay (original baseline patched edited : Object) :
    patchEntries original baseline patched edited =
      overlay (patchEntry original baseline) baseline patched edited := by
  induction edited generalizing patched with
  | nil => rfl
  | cons entry edited ih =>
    rw [patchEntries, ih]
    rfl

variable {baseline edited : Object}

/-- An edit that keeps the kind of an object merges it member by member. -/
theorem get_patchEntries (original : Object) (hedited : Sorted edited) (key : String) :
    get (patchEntries original baseline (removeDeleted original baseline edited) edited) key =
      patchedMember (get original key) (get baseline key) (get edited key) := by
  rw [patchEntries_eq_overlay, get_overlay hedited, get_removeDeleted]
  cases get edited key with
  | none => cases get baseline key <;> cases get original key <;> rfl
  | some value =>
    simp only [patchEntry]
    cases get baseline key with
    | none => cases get original key <;> rfl
    | some baselineValue =>
      by_cases hvalue : baselineValue = value
      · subst hvalue
        cases get original key <;> simp [patchedMember, patchChangedJson_baseline]
      · cases get original key <;> simp [patchedMember, hvalue]

/-! ### Laws -/

theorem forall₂_getElem? {α β : Type} {R : α → β → Prop} {l : List α} {l' : List β}
    (h : List.Forall₂ R l l') {i : Nat} {a : α} {b : β} (ha : l[i]? = some a)
    (hb : l'[i]? = some b) : R a b := by
  obtain ⟨hlt, rfl⟩ := List.getElem?_eq_some_iff.mp ha
  obtain ⟨hlt', rfl⟩ := List.getElem?_eq_some_iff.mp hb
  exact h.get hlt hlt'

theorem exists_of_forall₂_right {α β : Type} {R : α → β → Prop} {l : List α} {l' : List β}
    (h : List.Forall₂ R l l') {b : β} (hb : b ∈ l') : ∃ a ∈ l, R a b := by
  obtain ⟨i, hlt, rfl⟩ := getElem_of_mem hb
  have hlt' : i < l.length := h.length_eq ▸ hlt
  exact ⟨l[i], getElem_mem hlt', h.get hlt' hlt⟩

theorem patchItems_forall₂ {R S : Json → Json → Prop} {original baseline edited : List Json}
    (hbase : ∀ (index : Nat) originalValue baselineValue, original[index]? = some originalValue →
      baseline[index]? = some baselineValue → R originalValue baselineValue)
    (hfresh : ∀ value ∈ edited, S value value)
    (hpatch : ∀ originalValue baselineValue editedValue, R originalValue baselineValue →
      editedValue ∈ edited →
      S (patchChangedJson originalValue baselineValue editedValue) editedValue)
    (alignment : List (Option Nat)) :
    List.Forall₂ S (patchItems original baseline alignment edited) edited := by
  induction edited generalizing alignment with
  | nil => exact .nil
  | cons value edited ih =>
    refine .cons ?_ (ih (fun value hvalue => hfresh value (mem_cons_of_mem _ hvalue))
      (fun o b e hob he => hpatch o b e hob (mem_cons_of_mem _ he)) _)
    split
    · split
      · rename_i horiginal hbaseline
        exact hpatch _ _ _ (hbase _ _ _ horiginal hbaseline) mem_cons_self
      · exact hfresh _ mem_cons_self
    · exact hfresh _ mem_cons_self

variable {edited original baseline : Json} {motive : Json → Prop}

theorem patchChangedJson_shape
    (hedited : edited.WF) (keep : baseline = edited → motive original) (replace : motive edited)
    (items : ∀ o b e, original = .arr o → baseline = .arr b → edited = .arr e →
      motive (.arr (patchItems o b (alignChangedItems e b) e)))
    (merge : ∀ o b e patched, original = .obj o → baseline = .obj b → edited = .obj e →
      get b "type" = get e "type" → get b "role" = get e "role" → (Sorted o → Sorted patched) →
      (∀ key, get patched key = patchedMember (get o key) (get b key) (get e key)) →
      motive (.obj patched)) :
    motive (patchChangedJson original baseline edited) := by
  fun_cases patchChangedJson original baseline edited with
  | case1 => exact keep rfl
  | case2 | case5 => exact replace
  | case3 o b e hkind =>
    push Not at hkind
    refine merge o b e _ rfl rfl rfl hkind.1 hkind.2 (fun horiginal => ?_)
      (get_patchEntries o (wf_obj.mp hedited).1)
    rw [patchEntries_eq_overlay]
    exact (horiginal.removeDeleted _ _).overlay _ _ _
  | case4 => exact items _ _ _ rfl rfl rfl

/-- If the baseline is the original itself, the patch is the edit. -/
theorem patchChangedJson_original (horiginal : original.WF) (hedited : edited.WF) :
    patchChangedJson original original edited = edited := by
  induction edited using induction generalizing original with
  | null | bool | num | str =>
    exact patchChangedJson_shape (motive := (· = _)) hedited id rfl nofun nofun
  | arr edited ih =>
    refine patchChangedJson_shape (motive := (· = _)) hedited id rfl ?_ nofun
    rintro o _ _ rfl ⟨⟩ ⟨⟩
    have hitems : List.Forall₂ (fun o b => o = b ∧ o.WF) o o :=
      forall₂_same.mpr fun item hitem => ⟨rfl, wf_arr.mp horiginal item hitem⟩
    congr 1
    rw [← forall₂_eq_eq_eq]
    refine patchItems_forall₂ (fun _ _ _ => forall₂_getElem? hitems) (fun _ _ => rfl) ?_ _
    rintro value _ editedValue ⟨rfl, hvalue⟩ hmem
    exact ih editedValue hmem hvalue (wf_arr.mp hedited editedValue hmem)
  | obj edited ih =>
    refine patchChangedJson_shape (motive := (· = _)) hedited id rfl nofun ?_
    rintro o _ _ patched rfl ⟨⟩ ⟨⟩ - - hsort hget
    congr 1
    refine ext (hsort (wf_obj.mp horiginal).1) (wf_obj.mp hedited).1 fun key => ?_
    rw [hget]
    cases hvalue : get o key with
    | none => cases get edited key <;> rfl
    | some value =>
      cases heditedValue : get edited key with
      | none => rfl
      | some editedValue =>
        rw [patchedMember, ih (key, editedValue) (mem_of_get heditedValue)
          (horiginal.member hvalue) (hedited.member heditedValue)]

theorem wf_patchedMember {original edited : Option Json} (baseline : Option Json)
    (horiginal : ∀ value, original = some value → value.WF)
    (hedited : ∀ value, edited = some value → value.WF)
    (hpatch : ∀ o b e, original = some o → edited = some e → (patchChangedJson o b e).WF)
    {value : Json} (h : patchedMember original baseline edited = some value) : value.WF := by
  revert h
  fun_cases patchedMember original baseline edited with
  | case1 => rintro ⟨⟩; exact hpatch _ _ _ rfl rfl
  | case2 | case5 => exact nofun
  | case3 | case4 => rintro ⟨⟩; exact hedited _ rfl
  | case6 => exact horiginal _

/-- Patching keeps the keys of every object in order. -/
theorem wf_patchChangedJson {original : Json} (baseline : Json) (horiginal : original.WF)
    (hedited : edited.WF) : (patchChangedJson original baseline edited).WF := by
  induction edited using induction generalizing original baseline with
  | null | bool | num | str =>
    exact patchChangedJson_shape hedited (fun _ => horiginal) hedited nofun nofun
  | arr edited ih =>
    refine patchChangedJson_shape hedited (fun _ => horiginal) hedited ?_ nofun
    rintro o b _ rfl - ⟨⟩
    have hitems := @patchItems_forall₂ (fun value _ => value.WF)
      (fun value _ => value.WF ∧ True) o b _
      (fun _ value _ hvalue _ => wf_arr.mp horiginal value (mem_of_getElem? hvalue))
      (fun value hvalue => ⟨wf_arr.mp hedited value hvalue, trivial⟩)
      (fun _ _ value ho he => ⟨ih value he _ ho (wf_arr.mp hedited value he), trivial⟩)
    exact wf_arr.mpr ((forall₂_and_left _ _).mp (hitems _)).1
  | obj edited ih =>
    refine patchChangedJson_shape hedited (fun _ => horiginal) hedited nofun ?_
    rintro o b _ patched rfl - ⟨⟩ - - hsorted hget
    refine wf_obj_of_get (hsorted (wf_obj.mp horiginal).1) fun key value hvalue => ?_
    rw [hget] at hvalue
    refine wf_patchedMember _ (fun _ => horiginal.member) (fun _ => hedited.member) ?_ hvalue
    intro originalValue baselineValue editedValue ho he
    exact ih (key, editedValue) (mem_of_get he) _ (horiginal.member ho) (hedited.member he)

/-- A patched object, where the types and roles of the edit are those of the baseline. -/
structure Merge (o b e patched : Object) : Prop where
  type : get b "type" = get e "type"
  role : get b "role" = get e "role"
  wf : (Json.obj patched).WF
  member : ∀ key, get patched key = patchedMember (get o key) (get b key) (get e key)

/-- What a patch can be: the original, the edit, or a merge of two arrays or of two objects. -/
theorem patchChangedJson_cases
    (horiginal : original.WF) (hedited : edited.WF) (keep : baseline = edited → motive original)
    (replace : motive edited)
    (items : ∀ o b e, original = .arr o → baseline = .arr b → edited = .arr e → motive (.arr
      (patchItems o b (alignChangedItems e b) e)))
    (merge : ∀ o b e patched, original = .obj o → baseline = .obj b → edited = .obj e →
      Merge o b e patched → motive (.obj patched)) :
    motive (patchChangedJson original baseline edited) := by
  have hwf := wf_patchChangedJson baseline horiginal hedited
  revert hwf
  refine patchChangedJson_shape (motive := fun value => value.WF → motive value) hedited
    (fun hsame _ => keep hsame) (fun _ => replace) (fun o b e ho hb he _ => items o b e ho hb he) ?_
  intro o b e patched ho hb he htype hrole _ hget hwf
  exact merge o b e patched ho hb he ⟨htype, hrole, hwf, hget⟩

/-! ### Lists of items -/

/-- The value is well formed and reads as the item. -/
def Represents {α : Type} (decode : Json → Except FlowError α) (value : Json) (item : α) : Prop :=
  value.WF ∧ decode value = .ok item

theorem Represents.unique {α : Type} {decode : Json → Except FlowError α} {value : Json}
    {item other : α} (h : Represents decode value item) (h' : Represents decode value other) :
    item = other :=
  Except.ok.inj (h.2.symm.trans h'.2)

variable {original : Option (List Json)}

section Items

variable {α : Type} [DecidableEq α] {R : Json → α → Prop} {encode : α → Except FlowError Json}
  {patch : Json → α → α → Json → Json → Except FlowError Json}

theorem exists_encodeChangedItem {item : α} {aligned : Option (Json × α)}
    (haligned : ∀ pair, aligned = some pair → R pair.1 pair.2)
    (hfresh : ∃ value, encode item = .ok value ∧ R value item)
    (hpatch : ∀ o b, R o b → ∃ bv ev value, encode b = .ok bv ∧ encode item = .ok ev ∧
      patch o b item bv ev = .ok value ∧ R value item) :
    ∃ value, encodeChangedItem encode patch item aligned = .ok value ∧ R value item := by
  cases aligned with
  | none => exact hfresh
  | some pair =>
    obtain ⟨originalItem, baselineItem⟩ := pair
    have hrepr := haligned _ rfl
    rw [encodeChangedItem]
    by_cases hsame : baselineItem = item
    · subst hsame
      exact ⟨originalItem, if_pos rfl, hrepr⟩
    · obtain ⟨bv, ev, value, hbv, hev, hvalue, hR⟩ := hpatch _ _ hrepr
      refine ⟨value, ?_, hR⟩
      rw [if_neg hsame, hbv, hev]
      exact hvalue

variable [Serialize α] {edited baseline : List α}

/-- Let `R` say that a value represents an item. If every edited item can be encoded, alone and as
a patch of any item, then the encoded list represents the edited items, whatever the alignment. -/
theorem exists_encodeChangedItemsWithPatch
    (hbase : ∀ items, original = some items → List.Forall₂ R items baseline)
    (hfresh : ∀ item ∈ edited, ∃ value, encode item = .ok value ∧ R value item)
    (hpatch : ∀ item ∈ edited, ∀ o b, R o b → ∃ bv ev value, encode b = .ok bv ∧ encode item =
      .ok ev ∧ patch o b item bv ev = .ok value ∧ R value item) :
    ∃ values, encodeChangedItemsWithPatch edited baseline original encode patch = .ok values ∧
      List.Forall₂ R values edited := by
  have haligned : ∀ aligned pair, alignedItem baseline original aligned = some pair →
      R pair.1 pair.2 := by
    intro aligned pair hpair
    simp only [alignedItem, Option.bind_eq_bind, Option.bind_eq_some_iff, Option.pure_def,
      Option.some.injEq] at hpair
    obtain ⟨index, -, baselineItem, hbaseline, items, hitems, originalItem, horiginal, rfl⟩ :=
      hpair
    exact forall₂_getElem? (hbase items hitems) horiginal hbaseline
  have hitems : ∀ entry ∈ edited.zipIdx, ∃ value,
      encodeChangedItem encode patch entry.1 (alignedItem baseline original
        ((if original.isSome then alignChangedItems edited baseline
          else List.replicate edited.length none)[entry.2]?).join) = .ok value ∧
        R value entry.1 := by
    intro entry hentry
    have hitem : entry.1 ∈ edited := fst_mem_of_mem_zipIdx hentry
    exact exists_encodeChangedItem (haligned _) (hfresh _ hitem) (hpatch _ hitem)
  obtain ⟨values, hvalues, hR⟩ := exists_mapM_eq_ok hitems
  refine ⟨values, hvalues, ?_⟩
  rw [← zipIdx_map_fst 0 edited, forall₂_map_right_iff]
  exact hR

end Items

variable {items : List Json}

theorem forall₂_represents {α : Type} {decode : Json → Except FlowError α} {decoded : List α} :
    List.Forall₂ (Represents decode) items decoded ↔
      (Json.arr items).WF ∧ items.mapM decode = .ok decoded := by
  rw [mapM_eq_ok, wf_arr]
  exact forall₂_and_left items decoded

/-! ### Items that can be patched -/

/-- Every item that can be read can be written again, and an editable item that is written as a
patch of any other item reads back. -/
structure PatchLaw {α : Type} (decode : Json → Except FlowError α)
    (encode : α → Except FlowError Json) (Editable : α → Prop) : Prop where
  encodes : ∀ {value item}, Represents decode value item →
    ∃ encoded, encode item = .ok encoded ∧ Represents decode encoded item
  patches : ∀ {original before value edited}, Represents decode original before →
    Represents decode value edited → Editable edited →
    ∃ bv ev, encode before = .ok bv ∧ encode edited = .ok ev ∧
      Represents decode (patchChangedJson original bv ev) edited

namespace PatchLaw

variable {α : Type} {decode : Json → Except FlowError α} {encode : α → Except FlowError Json}
  {Editable : α → Prop}

/-- Only merges have to be considered, of values that are not written as they were read. -/
theorem of_merge (encodes : ∀ {value item}, Represents decode value item →
      ∃ encoded, encode item = .ok encoded ∧ Represents decode encoded item)
    (merges : ∀ {original before bv edited ev}, Represents decode original before →
      encode before = .ok bv → bv ≠ original → encode edited = .ok ev →
      Represents decode ev edited → Editable edited →
      (∀ o b e, original = .arr o → bv = .arr b → ev = .arr e →
        Represents decode (.arr (patchItems o b (alignChangedItems e b) e)) edited) ∧
      ∀ o b e patched, original = .obj o → bv = .obj b → ev = .obj e → Merge o b e patched →
        Represents decode (.obj patched) edited) : PatchLaw decode encode Editable where
  encodes := encodes
  patches := by
    intro original before value edited horiginal hedited heditable
    obtain ⟨bv, hbv, hbefore⟩ := encodes horiginal
    obtain ⟨ev, hev, hfresh⟩ := encodes hedited
    refine ⟨bv, ev, hbv, hev, ?_⟩
    by_cases hne : bv = original
    · rw [hne, patchChangedJson_original horiginal.1 hfresh.1]
      exact hfresh
    · obtain ⟨hitems, hmerge⟩ := merges horiginal hbv hne hev hfresh heditable
      refine patchChangedJson_cases (motive := fun value => Represents decode value edited)
        horiginal.1 hfresh.1 ?_ hfresh hitems hmerge
      rintro rfl
      rw [← hbefore.unique hfresh]
      exact horiginal

theorem exists_encodeChangedItems [DecidableEq α] [Serialize α]
    (law : PatchLaw decode encode Editable) {values : List Json} {edited baseline : List α}
    (hbase : ∀ items, original = some items → List.Forall₂ (Represents decode) items baseline)
    (hedited : List.Forall₂ (Represents decode) values edited)
    (heditable : ∀ item ∈ edited, Editable item) :
    ∃ values, encodeChangedItems edited baseline original encode = .ok values ∧
      List.Forall₂ (Represents decode) values edited := by
  refine exists_encodeChangedItemsWithPatch hbase ?_ ?_
  · intro item hitem
    obtain ⟨value, -, hvalue⟩ := exists_of_forall₂_right hedited hitem
    exact law.encodes hvalue
  · intro item hitem o b hob
    obtain ⟨value, -, hvalue⟩ := exists_of_forall₂_right hedited hitem
    obtain ⟨bv, ev, hbv, hev, hrepr⟩ := law.patches hob hvalue (heditable item hitem)
    exact ⟨bv, ev, _, hbv, hev, rfl, hrepr⟩

/-- An array of items, written as a patch of any array of items. -/
theorem forall₂_patchItems (law : PatchLaw decode encode Editable) {values : List Json}
    {before edited : List α} {bvs evs : List Json}
    (hbefore : List.Forall₂ (Represents decode) items before)
    (hedited : List.Forall₂ (Represents decode) values edited)
    (heditable : ∀ item ∈ edited, Editable item) (hbvs : before.mapM encode = .ok bvs)
    (hevs : edited.mapM encode = .ok evs) (alignment : List (Option Nat)) :
    List.Forall₂ (Represents decode) (patchItems items bvs alignment evs) edited := by
  rw [mapM_eq_ok] at hbvs hevs
  -- a patched value represents every edited item that has the encoding it was patched with
  have hpatched : List.Forall₂
      (fun value ev => ∀ item ∈ edited, encode item = .ok ev → Represents decode value item)
      (patchItems items bvs alignment evs) evs := by
    refine patchItems_forall₂
      (R := fun o bv => ∃ b, Represents decode o b ∧ encode b = .ok bv) ?_ ?_ ?_ alignment
    · intro index o bv ho hbv
      obtain ⟨hlt, -⟩ := List.getElem?_eq_some_iff.mp ho
      have hb := getElem?_eq_getElem (hbefore.length_eq ▸ hlt)
      exact ⟨_, forall₂_getElem? hbefore ho hb, forall₂_getElem? hbvs hb hbv⟩
    · intro ev _ item hitem hev
      obtain ⟨value, -, hvalue⟩ := exists_of_forall₂_right hedited hitem
      obtain ⟨encoded, hencoded, hrepr⟩ := law.encodes hvalue
      cases hev.symm.trans hencoded
      exact hrepr
    · rintro o bv ev ⟨b, hob, hbv⟩ _ item hitem hev
      obtain ⟨value, -, hvalue⟩ := exists_of_forall₂_right hedited hitem
      obtain ⟨bv', ev', hbv', hev', hrepr⟩ := law.patches hob hvalue (heditable item hitem)
      cases hbv.symm.trans hbv'
      cases hev.symm.trans hev'
      exact hrepr
  rw [forall₂_iff_get] at hpatched hevs ⊢
  refine ⟨hpatched.1.trans hevs.1.symm, fun index hlt hlt' => ?_⟩
  exact hpatched.2 index hlt (hpatched.1 ▸ hlt) _ (get_mem _ _) (hevs.2 index hlt' _)

end PatchLaw

/-! ### Nested values -/

section Nested

/-- `PatchedAt original baseline edited o b e value` says that patching reaches the values `o`, `b`
and `e` somewhere inside of the three, where the patched value has `value`. -/
inductive PatchedAt (original baseline edited : Json) : Json → Json → Json → Json → Prop
  | root : PatchedAt original baseline edited original baseline edited
      (patchChangedJson original baseline edited)
  | member {o b e patched : Object} {key : String} {ov bv ev value : Json} :
      PatchedAt original baseline edited (.obj o) (.obj b) (.obj e) (.obj patched) → b ≠ e →
      get b "type" = get e "type" → get b "role" = get e "role" → get o key = some ov →
      get b key = some bv → get e key = some ev → get patched key = some value →
      PatchedAt original baseline edited ov bv ev value
  | item {o b e patched : List Json} {i k : Nat} {ov bv ev value : Json} :
      PatchedAt original baseline edited (.arr o) (.arr b) (.arr e) (.arr patched) → b ≠ e →
      (alignChangedItems e b)[i]? = some (some k) → o[k]? = some ov → b[k]? = some bv →
      e[i]? = some ev → patched[i]? = some value → PatchedAt original baseline edited ov bv ev value

theorem getElem?_patchItems {o b e : List Json} {alignment : List (Option Nat)} {i k : Nat}
    {ov bv ev : Json} (halign : alignment[i]? = some (some k)) (ho : o[k]? = some ov)
    (hb : b[k]? = some bv) (he : e[i]? = some ev) :
    (patchItems o b alignment e)[i]? = some (patchChangedJson ov bv ev) := by
  -- the alignment is consumed along with the edited items, the other two lists are looked up
  induction e generalizing alignment i with
  | nil => simp at he
  | cons value e ih =>
    rw [patchItems]
    cases i with
    | zero =>
      cases he
      simp [head?_eq_getElem?, halign, ho, hb]
    | succ i => exact ih (by rwa [getElem?_tail]) he

theorem patchChangedJson_obj {o b e : Object} (htype : get b "type" = get e "type")
    (hrole : get b "role" = get e "role") (he : Sorted e) : ∃ patched,
    patchChangedJson (.obj o) (.obj b) (.obj e) = .obj patched ∧
      ∀ key, get patched key = if b = e then get o key else
        patchedMember (get o key) (get b key) (get e key) := by
  rw [patchChangedJson]
  by_cases hne : b = e
  · simp [hne]
  · rw [if_neg (mt Json.obj.inj hne), if_neg (by simp [htype, hrole])]
    simp only [hne]
    exact ⟨_, rfl, get_patchEntries o he⟩

variable {original baseline edited : Json} (hedited : edited.WF)
include hedited

/-- What the patched value has inside is the patch of what the three values have there. -/
theorem PatchedAt.eq_patch {o b e value : Json}
    (h : PatchedAt original baseline edited o b e value) :
    value = patchChangedJson o b e ∧ e.WF := by
  -- along the way down; a member of the patch is known only while the edit is well formed
  induction h with
  | root => exact ⟨rfl, hedited⟩
  | member _ hne htype hrole ho hb he hvalue ih =>
    obtain ⟨patched, heq, hget⟩ := patchChangedJson_obj htype hrole (wf_obj.mp ih.2).1
    cases ih.1.trans heq
    rw [hget, if_neg hne, ho, hb, he, patchedMember] at hvalue
    exact ⟨(Option.some.inj hvalue).symm, ih.2.member he⟩
  | item _ hne halign ho hb he hvalue ih =>
    have heq := ih.1
    rw [patchChangedJson, if_neg (mt Json.arr.inj hne)] at heq
    cases heq
    rw [getElem?_patchItems halign ho hb he] at hvalue
    exact ⟨(Option.some.inj hvalue).symm, wf_arr.mp ih.2 _ (mem_of_getElem? he)⟩

/-- An edit of nothing keeps the original, an edit of the original itself is the result, and at any
depth the members that neither the baseline nor the edit has are kept. -/
theorem patchChangedJson_laws (horiginal : original.WF) :
    patchChangedJson original baseline baseline = original ∧
      patchChangedJson original original edited = edited ∧
      ∀ o b e value, PatchedAt original baseline edited (.obj o) (.obj b) (.obj e) value →
        get b "type" = get e "type" → get b "role" = get e "role" →
        ∃ patched, value = .obj patched ∧
          ∀ key, get b key = none → get e key = none → get patched key = get o key := by
  refine ⟨patchChangedJson_baseline _ _, patchChangedJson_original horiginal hedited, ?_⟩
  intro o b e value hvalue htype hrole
  obtain ⟨rfl, he⟩ := hvalue.eq_patch hedited
  obtain ⟨patched, heq, hget⟩ := @patchChangedJson_obj o b e htype hrole (wf_obj.mp he).1
  refine ⟨patched, heq, fun key hb he => ?_⟩
  rw [hget, hb, he, patchedMember, ite_self]

end Nested

/-- A member of an item of a member. -/
theorem unknown_member_kept :
    let body (entries : Object) : Json := .obj [("messages", .arr [.obj entries])]
    ∃ patched, patchChangedJson (body [("x", .null)]) (body []) (body [("y", .null)]) =
        body patched ∧ get patched "x" = some .null := by
  intro body
  obtain ⟨patched, heq, hget⟩ := (@patchChangedJson_laws (body [("x", .null)]) (body [])
    (body [("y", .null)]) rfl rfl).2.2 _ _ _ _ (.item (i := 0) (k := 0)
      (.member .root nofun rfl rfl (show SortedMap.get _ "messages" = _ from rfl) rfl rfl rfl) nofun
      rfl rfl rfl rfl rfl) rfl rfl
  exact ⟨patched, congrArg (fun item => obj [("messages", arr [item])]) heq,
    hget "x" rfl rfl⟩

end NemoRelay
