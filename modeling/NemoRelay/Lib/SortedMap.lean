import Mathlib.Data.List.Sort

/-!
# Maps as sorted lists of entries

A map is a list of entries whose keys increase strictly. Look-up, insertion and removal agree on
every list; only the identity of two maps with the same entries needs the order.
-/

namespace SortedMap

open List

variable {κ ν : Type*} [LinearOrder κ]

def get (m : List (κ × ν)) (k : κ) : Option ν :=
  match m with
  | [] => none
  | (k', v) :: rest => if k = k' then some v else get rest k

/-- Insert an entry, or replace the one with the same key. -/
def insert (m : List (κ × ν)) (k : κ) (v : ν) : List (κ × ν) :=
  match m with
  | [] => [(k, v)]
  | (k', v') :: rest =>
    if k < k' then (k, v) :: (k', v') :: rest
    else if k = k' then (k, v) :: rest
    else (k', v') :: insert rest k v

def erase (m : List (κ × ν)) (k : κ) : List (κ × ν) := m.filter fun entry => entry.1 ≠ k

def Sorted (m : List (κ × ν)) : Prop := m.Pairwise fun a b => a.1 < b.1

instance (m : List (κ × ν)) : Decidable (Sorted m) :=
  inferInstanceAs (Decidable (m.Pairwise fun a b => a.1 < b.1))

variable {m n : List (κ × ν)} {k : κ} {v : ν}

/-! ### Look-ups -/

@[simp] theorem get_nil (k : κ) : get ([] : List (κ × ν)) k = none := rfl

theorem get_cons (entry : κ × ν) (m : List (κ × ν)) (k : κ) :
    get (entry :: m) k = if k = entry.1 then some entry.2 else get m k := rfl

theorem mem_of_get (h : get m k = some v) : (k, v) ∈ m := by
  induction m with
  | nil => cases h
  | cons entry m ih =>
    rw [get_cons] at h
    split at h
    · rename_i hk
      cases h
      rw [hk]
      exact mem_cons_self
    · exact mem_cons_of_mem _ (ih h)

theorem get_isSome_iff : (get m k).isSome ↔ k ∈ m.map Prod.fst := by
  induction m with
  | nil => simp
  | cons entry m ih =>
    rw [get_cons, map_cons]
    by_cases hk : k = entry.1
    · simp [hk]
    · simp [hk, ih]

theorem get_insert (m : List (κ × ν)) (k : κ) (v : ν) (k' : κ) :
    get (insert m k v) k' = if k' = k then some v else get m k' := by
  induction m with
  | nil => rfl
  | cons entry m ih =>
    rw [insert]
    split
    · rw [get_cons]
    · split
      · rename_i hk
        rw [get_cons, get_cons, ← hk]
        by_cases hkk : k' = k
        · rw [if_pos hkk, if_pos hkk]
        · rw [if_neg hkk, if_neg hkk, if_neg hkk]
      · rename_i hk
        rw [get_cons, get_cons, ih]
        by_cases hkk : k' = k
        · rw [if_pos hkk, if_neg fun h => hk (hkk.symm.trans h), if_pos hkk]
        · rw [if_neg hkk, if_neg hkk]

theorem get_filter (p : κ → Bool) (m : List (κ × ν)) (k : κ) :
    get (m.filter fun entry => p entry.1) k = if p k then get m k else none := by
  induction m with
  | nil => simp
  | cons entry m ih =>
    rw [filter_cons, get_cons]
    by_cases hk : k = entry.1
    · subst hk
      split
      · rw [get_cons, if_pos rfl, if_pos rfl]
      · rename_i hp
        rw [ih, if_neg hp]
    · rw [if_neg hk, ← ih]
      split
      · rw [get_cons, if_neg hk]
      · rfl

theorem get_erase (m : List (κ × ν)) (k k' : κ) :
    get (erase m k) k' = if k' = k then none else get m k' := by
  rw [erase, get_filter (fun key => decide (key ≠ k))]
  by_cases hk : k' = k <;> simp [hk]

theorem get_foldl_erase (n m : List (κ × ν)) (k : κ) :
    get (n.foldl (fun m entry => erase m entry.1) m) k =
      if (get n k).isSome then none else get m k := by
  induction n generalizing m with
  | nil => rfl
  | cons entry n ih =>
    rw [foldl_cons, ih, get_erase, get_cons]
    by_cases hk : k = entry.1
    · rw [if_pos hk, if_pos hk]
      simp
    · rw [if_neg hk, if_neg hk]

/-! ### Order -/

variable {entry : κ × ν}

theorem sorted_cons :
    Sorted (entry :: m) ↔ (∀ other ∈ m, entry.1 < other.1) ∧ Sorted m := pairwise_cons

theorem Sorted.filter (h : Sorted m) (p : κ × ν → Bool) : Sorted (m.filter p) :=
  List.Pairwise.filter p h

theorem Sorted.erase (h : Sorted m) (k : κ) : Sorted (erase m k) := h.filter _

theorem Sorted.foldl_erase (h : Sorted m) (n : List (κ × ν)) :
    Sorted (n.foldl (fun m entry => SortedMap.erase m entry.1) m) :=
  List.foldlRecOn n _ h fun _ h _ _ => h.erase _

theorem eq_or_mem_of_mem_insert (h : entry ∈ insert m k v) : entry = (k, v) ∨ entry ∈ m := by
  induction m with
  | nil => exact .inl (mem_singleton.mp h)
  | cons first m ih =>
    rw [insert] at h
    split at h
    · exact mem_cons.mp h
    · split at h
      · exact (mem_cons.mp h).imp_right (mem_cons_of_mem _)
      · obtain rfl | h := mem_cons.mp h
        · exact .inr mem_cons_self
        · exact (ih h).imp_right (mem_cons_of_mem _)

theorem Sorted.insert (h : Sorted m) (k : κ) (v : ν) : Sorted (insert m k v) := by
  induction m with
  | nil => exact pairwise_singleton _ _
  | cons entry m ih =>
    rw [sorted_cons] at h
    rw [SortedMap.insert]
    split
    · rename_i hlt
      rw [sorted_cons, sorted_cons]
      exact ⟨forall_mem_cons.mpr ⟨hlt, fun other hother => hlt.trans (h.1 other hother)⟩, h⟩
    · rename_i hnlt
      split
      · rename_i hk
        rw [sorted_cons]
        exact ⟨fun other hother => hk ▸ h.1 other hother, h.2⟩
      · rename_i hk
        have hgt : entry.1 < k := lt_of_le_of_ne (not_lt.mp hnlt) (Ne.symm hk)
        rw [sorted_cons]
        refine ⟨?_, ih h.2⟩
        intro other hother
        obtain rfl | hother := eq_or_mem_of_mem_insert hother
        · exact hgt
        · exact h.1 other hother

theorem insert_perm (h : get m k = none) : (insert m k v).Perm ((k, v) :: m) := by
  induction m with
  | nil => rfl
  | cons entry m ih =>
    rw [get_cons] at h
    split at h
    · cases h
    · next hne =>
      rw [insert, if_neg hne]
      split
      · rfl
      · exact ((ih h).cons _).trans (.swap _ _ _)

/-- In a sorted map every entry is found. -/
theorem Sorted.get_of_mem (h : Sorted m) (hmem : (k, v) ∈ m) : get m k = some v := by
  induction m with
  | nil => cases hmem
  | cons entry m ih =>
    rw [sorted_cons] at h
    rw [get_cons]
    obtain heq | hmem := mem_cons.mp hmem
    · rw [← heq, if_pos rfl]
    · rw [if_neg (ne_of_gt (h.1 _ hmem)), ih h.2 hmem]

section

variable (h : ∀ entry ∈ m, entry.1 < k)
include h

/-- A key above those of a first part is inserted behind it. -/
theorem insert_append (n : List (κ × ν)) (v : ν) : insert (m ++ n) k v = m ++ insert n k v := by
  induction m with
  | nil => rfl
  | cons entry m ih =>
    obtain ⟨hentry, hrest⟩ := forall_mem_cons.mp h
    rw [cons_append, insert, if_neg hentry.asymm, if_neg hentry.ne', ih hrest]
    rfl

theorem insert_of_forall_lt (v : ν) : insert m k v = m ++ [(k, v)] := by
  simpa [insert] using insert_append h [] v

theorem insert_append_self (v v' : ν) : insert (m ++ [(k, v)]) k v' = m ++ [(k, v')] := by
  simp [insert_append h, insert]

theorem get_of_forall_lt : get m k = none := by
  induction m with
  | nil => rfl
  | cons entry m ih =>
    obtain ⟨hentry, hrest⟩ := forall_mem_cons.mp h
    rw [get_cons, if_neg hentry.ne', ih hrest]

theorem get_append_self (v : ν) : get (m ++ [(k, v)]) k = some v := by
  rw [← insert_of_forall_lt h, get_insert, if_pos rfl]

end

theorem Sorted.nodup (h : Sorted m) : m.Nodup := by
  refine List.Pairwise.imp ?_ h
  rintro a b hab rfl
  exact lt_irrefl _ hab

/-- Sorted maps with the same look-ups are equal. -/
theorem ext (hm : Sorted m) (hn : Sorted n) (h : ∀ k, get m k = get n k) : m = n := by
  have hmem : ∀ entry, entry ∈ m ↔ entry ∈ n := by
    rintro ⟨k, v⟩
    constructor
    · intro hkv
      exact mem_of_get ((h k).symm.trans (hm.get_of_mem hkv))
    · intro hkv
      exact mem_of_get ((h k).trans (hn.get_of_mem hkv))
  have hperm := (perm_ext_iff_of_nodup hm.nodup hn.nodup).mpr hmem
  refine hperm.eq_of_pairwise ?_ hm hn
  intro a b _ _ hab hba
  exact absurd hba hab.not_gt

theorem Sorted.insert_of_get (h : Sorted m) (hget : get m k = some v) :
    SortedMap.insert m k v = m := by
  refine ext (h.insert k v) h fun k' => ?_
  rw [get_insert]
  split
  · rename_i hk
    rw [hk, hget]
  · rfl

/-- Two changes at different keys with the same result change nothing. -/
theorem Sorted.insert_eq_self (h : Sorted m) {k' : κ} {v' : ν} (hne : k ≠ k')
    (heq : SortedMap.insert m k v = SortedMap.insert m k' v') : SortedMap.insert m k v = m := by
  have hget := congrArg (get · k) heq
  simp only [get_insert, if_neg hne] at hget
  exact h.insert_of_get hget.symm

theorem Sorted.erase_of_get (h : Sorted m) (hget : get m k = none) : SortedMap.erase m k = m := by
  refine ext (h.erase k) h fun k' => ?_
  rw [get_erase]
  split
  · rename_i hk
    rw [hk, hget]
  · rfl

/-! ### Three-way merge -/

/-- Removes the keys of `base` that `edited` does not have. -/
def removeDeleted (m base edited : List (κ × ν)) : List (κ × ν) :=
  (base.filter fun entry => (get edited entry.1).isNone).foldl (fun m entry => erase m entry.1) m

/-- Writes the entries of `edited` that differ from those of `base`. -/
def overlay [DecidableEq ν] (value : κ × ν → ν) (base m edited : List (κ × ν)) : List (κ × ν) :=
  edited.foldl
    (fun m entry => if get base entry.1 = some entry.2 then m else insert m entry.1 (value entry)) m

theorem get_removeDeleted (m base edited : List (κ × ν)) (k : κ) :
    get (removeDeleted m base edited) k =
      if (get edited k).isNone ∧ (get base k).isSome then none else get m k := by
  rw [removeDeleted, get_foldl_erase, get_filter fun key => (get edited key).isNone]
  by_cases hedited : (get edited k).isNone <;> simp [hedited]

theorem Sorted.removeDeleted (h : Sorted m) (base edited : List (κ × ν)) :
    Sorted (removeDeleted m base edited) := h.foldl_erase _

theorem Sorted.get_eq_none (h : Sorted (entry :: m)) : get m entry.1 = none := by
  rw [← Option.not_isSome_iff_eq_none, get_isSome_iff]
  intro hmem
  obtain ⟨other, hother, hkey⟩ := mem_map.mp hmem
  exact ((sorted_cons.mp h).1 other hother).ne hkey.symm

theorem get_overlay [DecidableEq ν] {edited : List (κ × ν)} (hedited : Sorted edited)
    (value : κ × ν → ν) (base m : List (κ × ν)) (k : κ) :
    get (overlay value base m edited) k =
      match get edited k with
      | some v => if get base k = some v then get m k else some (value (k, v))
      | none => get m k := by
  induction edited generalizing m with
  | nil => rfl
  | cons entry edited ih =>
    rw [overlay, foldl_cons, ← overlay, ih (sorted_cons.mp hedited).2, get_cons]
    by_cases hk : k = entry.1
    · -- the key occurs only at the head
      subst hk
      rw [hedited.get_eq_none, if_pos rfl]
      simp only
      split
      · rfl
      · rw [get_insert, if_pos rfl]
    · have hsame : get (if get base entry.1 = some entry.2 then m
          else insert m entry.1 (value entry)) k = get m k := by
        split
        · rfl
        · rw [get_insert, if_neg hk]
      rw [hsame, if_neg hk]

theorem Sorted.overlay [DecidableEq ν] (h : Sorted m) (value : κ × ν → ν)
    (base edited : List (κ × ν)) : Sorted (overlay value base m edited) := by
  refine List.foldlRecOn edited _ h fun m h entry _ => ?_
  split
  · exact h
  · exact h.insert _ _

/-! ### Merging entries -/

/-- Combines each entry of `n` with the value `m` has under its key, or with `d`. -/
def mergeWith (f : ν → ν → ν) (d : ν) (m n : List (κ × ν)) : List (κ × ν) :=
  n.foldl (fun m entry => insert m entry.1 (f ((get m entry.1).getD d) entry.2)) m

theorem get_mergeWith (hn : Sorted n) (f : ν → ν → ν) (d : ν) (m : List (κ × ν)) (k : κ) :
    get (mergeWith f d m n) k =
      match get n k with
      | some v => some (f ((get m k).getD d) v)
      | none => get m k := by
  induction n generalizing m with
  | nil => rfl
  | cons entry n ih =>
    rw [mergeWith, foldl_cons, ← mergeWith, ih (sorted_cons.mp hn).2, get_cons]
    by_cases hk : k = entry.1
    · subst hk
      rw [hn.get_eq_none, get_insert, if_pos rfl, if_pos rfl]
    · rw [get_insert, if_neg hk, if_neg hk]

theorem Sorted.mergeWith (h : Sorted m) (f : ν → ν → ν) (d : ν) (n : List (κ × ν)) :
    Sorted (mergeWith f d m n) :=
  List.foldlRecOn n _ h fun _ h _ _ => h.insert _ _

/-! ### Changing values -/

variable (f : κ → ν → ν)

def mapValues (m : List (κ × ν)) : List (κ × ν) :=
  m.map fun entry => (entry.1, f entry.1 entry.2)

section

omit [LinearOrder κ]

theorem mapValues_id (m : List (κ × ν)) : mapValues (fun _ v => v) m = m := map_id m

theorem mapValues_mapValues (f g : κ → ν → ν) (m : List (κ × ν)) :
    mapValues f (mapValues g m) = mapValues (fun k v => f k (g k v)) m := map_map

theorem mapValues_eq_iff {f g : κ → ν → ν} :
    mapValues f m = mapValues g m ↔ ∀ entry ∈ m, f entry.1 entry.2 = g entry.1 entry.2 := by
  rw [mapValues, mapValues, map_inj_left]
  simp only [Prod.mk.injEq, true_and]

end

theorem get_mapValues (m : List (κ × ν)) (k : κ) : get (mapValues f m) k = (get m k).map (f k) := by
  induction m with
  | nil => rfl
  | cons entry m ih =>
    rw [mapValues, map_cons, ← mapValues, get_cons, get_cons, ih]
    by_cases hk : k = entry.1
    · rw [if_pos hk, if_pos hk, hk, Option.map_some]
    · rw [if_neg hk, if_neg hk]

theorem erase_mapValues (m : List (κ × ν)) (k : κ) :
    erase (mapValues f m) k = mapValues f (erase m k) := filter_map

theorem erase_insert (m : List (κ × ν)) (k : κ) (v : ν) : erase (insert m k v) k = erase m k := by
  induction m with
  | nil => simp [insert, erase]
  | cons entry m ih =>
    rw [insert]
    split
    · rw [erase, filter_cons_of_neg (by simp), erase]
    · split
      · rename_i hk
        rw [erase, erase, filter_cons_of_neg (by simp), filter_cons_of_neg (by simp [hk])]
      · rename_i hk
        rw [erase, erase, filter_cons_of_pos (by simp [Ne.symm hk]),
          filter_cons_of_pos (by simp [Ne.symm hk]), ← erase, ih, erase]

theorem Sorted.mapValues (h : Sorted m) (f : κ → ν → ν) : Sorted (mapValues f m) :=
  pairwise_map.mpr h

/-- Changes the value under a key, if there is one. -/
def adjust (k : κ) (f : ν → ν) : List (κ × ν) → List (κ × ν) :=
  mapValues fun k' v => if k' = k then f v else v

theorem Sorted.adjust_eq (h : Sorted m) (f : ν → ν) :
    adjust k f m = (get m k).elim m fun v => SortedMap.insert m k (f v) := by
  cases hget : get m k with
  | none =>
    refine ext (h.mapValues _) h fun k' => ?_
    by_cases hk : k' = k <;> simp [adjust, get_mapValues, hk, hget]
  | some v =>
    refine ext (h.mapValues _) (h.insert k _) fun k' => ?_
    by_cases hk : k' = k <;> simp [adjust, get_mapValues, get_insert, hk, hget]

/-- What an insertion at a present key changes, seen through a change of values. -/
theorem Sorted.mapValues_insert_eq_iff (h : Sorted m) (hget : get m k = some v) {v' : ν}
    {f : κ → ν → ν} :
    SortedMap.mapValues f (SortedMap.insert m k v') = SortedMap.mapValues f m ↔ f k v' = f k v := by
  constructor
  · intro heq
    have hk := congrArg (fun m => get m k) heq
    simpa [get_mapValues, get_insert, hget] using hk
  · intro heq
    refine ext ((h.insert k v').mapValues f) (h.mapValues f) fun k' => ?_
    rw [get_mapValues, get_mapValues, get_insert]
    split
    · rename_i hk
      rw [hk, hget, Option.map_some, Option.map_some, heq]
    · rfl

theorem map_filterMap_sublist {α β γ : Type*} {f : α → β} {g : α → Option γ} {f' : γ → β}
    (hg : ∀ x y, g x = some y → f' y = f x) (xs : List α) :
    ((xs.filterMap g).map f').Sublist (xs.map f) := by
  induction xs with
  | nil => exact .slnil
  | cons x xs ih =>
    rw [filterMap_cons, map_cons]
    cases hx : g x with
    | none => exact ih.cons _
    | some y => exact hg x y hx ▸ ih.cons_cons _

section FilterMap

variable (f : κ → ν → Option ν)

theorem Sorted.filterMap (h : Sorted m) :
    Sorted (m.filterMap fun entry => (f entry.1 entry.2).map (entry.1, ·)) := by
  refine List.Pairwise.filterMap _ (fun a b hlt => ?_) h
  simp only [Option.map_eq_some_iff]
  rintro _ ⟨v, -, rfl⟩ _ ⟨v', -, rfl⟩
  exact hlt

theorem Sorted.get_filterMap (h : Sorted m) (k : κ) :
    get (m.filterMap fun entry => (f entry.1 entry.2).map (entry.1, ·)) k =
      (get m k).bind (f k) := by
  induction m with
  | nil => rfl
  | cons entry m ih =>
    have hrest := ih (sorted_cons.mp h).2
    have hnone := h.get_eq_none
    rw [filterMap_cons, get_cons]
    cases hf : f entry.1 entry.2 with
    | none =>
      rw [Option.map_none, hrest]
      split
      · next hk => rw [hk, hnone, Option.bind_some, hf, Option.bind_none]
      · rfl
    | some v =>
      rw [Option.map_some, get_cons, hrest]
      split
      · next hk => rw [hk, Option.bind_some, hf]
      · rfl

end FilterMap

end SortedMap
