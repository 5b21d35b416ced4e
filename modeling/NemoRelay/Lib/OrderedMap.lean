import NemoRelay.Lib.SortedMap
import Mathlib.Data.List.Perm.Basic

/-!
# Maps that carry their order

An `OrderedMap` is a list of entries together with the proof that its keys increase strictly. Two
maps with the same look-ups are equal, and a map has one entry for each key it contains.

`OrderedMap.iterate` lists the entries in an order given from outside. It stands for the iteration
of a hash table, whose order is not determined by its content.
-/

structure OrderedMap (κ ν : Type*) [LinearOrder κ] where
  entries : List (κ × ν)
  sorted : SortedMap.Sorted entries

namespace OrderedMap

open List

variable {κ ν μ : Type*} [LinearOrder κ]

def empty : OrderedMap κ ν := ⟨[], List.Pairwise.nil⟩

instance : Inhabited (OrderedMap κ ν) := ⟨empty⟩

variable (m : OrderedMap κ ν)

def get (k : κ) : Option ν := SortedMap.get m.entries k

def insert (k : κ) (v : ν) : OrderedMap κ ν :=
  ⟨SortedMap.insert m.entries k v, m.sorted.insert k v⟩

def erase (k : κ) : OrderedMap κ ν :=
  ⟨SortedMap.erase m.entries k, m.sorted.erase k⟩

def contains (k : κ) : Bool := (m.get k).isSome

def size : Nat := m.entries.length

def isEmpty : Bool := m.entries.isEmpty

def keys : List κ := m.entries.map Prod.fst

variable (f : κ → ν → μ)

theorem sorted_map (m : OrderedMap κ ν) :
    SortedMap.Sorted (m.entries.map fun entry => (entry.1, f entry.1 entry.2)) := by
  rw [SortedMap.Sorted, pairwise_map]
  exact m.sorted

/-- Change every value, keeping the keys. -/
def map (f : κ → ν → μ) (m : OrderedMap κ ν) : OrderedMap κ μ :=
  ⟨m.entries.map fun entry => (entry.1, f entry.1 entry.2), m.sorted_map f⟩

/-- The entries in the order of a ranking of the keys. -/
def iterate (order : κ → Nat) (m : OrderedMap κ ν) : List (κ × ν) :=
  m.entries.insertionSort fun a b => order a.1 ≤ order b.1

variable {n : OrderedMap κ ν} {k : κ} {v : ν}

/-! ### Look-ups -/

@[simp] theorem get_empty (k : κ) : (empty : OrderedMap κ ν).get k = none := rfl

theorem get_insert (k : κ) (v : ν) (k' : κ) :
    (m.insert k v).get k' = if k' = k then some v else m.get k' :=
  SortedMap.get_insert m.entries k v k'

@[simp] theorem get_insert_self (k : κ) (v : ν) : (m.insert k v).get k = some v := by
  rw [get_insert, if_pos rfl]

theorem get_insert_of_ne (v : ν) {k' : κ} (h : k' ≠ k) : (m.insert k v).get k' = m.get k' := by
  rw [get_insert, if_neg h]

theorem get_erase (k k' : κ) :
    (m.erase k).get k' = if k' = k then none else m.get k' :=
  SortedMap.get_erase m.entries k k'

@[simp] theorem get_erase_self (k : κ) : (m.erase k).get k = none := by
  rw [get_erase, if_pos rfl]

theorem get_erase_of_ne {k' : κ} (h : k' ≠ k) : (m.erase k).get k' = m.get k' := by
  rw [get_erase, if_neg h]

variable {m}

theorem get_insert_eq_some {k' : κ} {v' : ν} (h : (m.insert k v).get k' = some v') :
    k' = k ∧ v' = v ∨ k' ≠ k ∧ m.get k' = some v' := by
  rw [get_insert] at h
  split at h
  · rename_i hk
    exact .inl ⟨hk, (Option.some.inj h).symm⟩
  · rename_i hk
    exact .inr ⟨hk, h⟩

theorem get_of_get_erase {k' : κ} (h : (m.erase k).get k' = some v) : m.get k' = some v := by
  rw [get_erase] at h
  split at h
  · cases h
  · exact h

theorem get_foldl_erase (ks : List κ) (m : OrderedMap κ ν) (k : κ) :
    (ks.foldl erase m).get k = if k ∈ ks then none else m.get k := by
  induction ks generalizing m with
  | nil => rfl
  | cons first ks ih =>
    rw [foldl_cons, ih, get_erase]
    by_cases hk : k = first <;> simp [hk]

theorem get_map (m : OrderedMap κ ν) (k : κ) : (m.map f).get k = (m.get k).map (f k) := by
  show SortedMap.get (m.entries.map fun entry => (entry.1, f entry.1 entry.2)) k =
    (SortedMap.get m.entries k).map (f k)
  induction m.entries with
  | nil => rfl
  | cons entry entries ih =>
    rw [map_cons, SortedMap.get_cons, SortedMap.get_cons, ih]
    by_cases hk : k = entry.1 <;> simp [hk]

theorem get_foldl_insert (f : κ → ν) (ks : List κ) (m : OrderedMap κ ν) (k : κ) :
    (ks.foldl (fun m k => m.insert k (f k)) m).get k = if k ∈ ks then some (f k) else m.get k := by
  induction ks generalizing m with
  | nil => rfl
  | cons first ks ih =>
    rw [foldl_cons, ih, get_insert]
    by_cases hk : k = first <;> simp [hk]

theorem mem_entries : (k, v) ∈ m.entries ↔ m.get k = some v :=
  ⟨m.sorted.get_of_mem, SortedMap.mem_of_get⟩

theorem ext (h : ∀ k, m.get k = n.get k) : m = n := by
  obtain ⟨entries, sorted⟩ := m
  obtain ⟨entries', sorted'⟩ := n
  cases SortedMap.ext sorted sorted' h
  rfl

theorem insert_insert (m : OrderedMap κ ν) (k : κ) (v v' : ν) :
    (m.insert k v).insert k v' = m.insert k v' := by
  apply ext
  intro k'
  rw [get_insert, get_insert, get_insert]
  split <;> rfl

theorem isEmpty_iff : m.isEmpty = true ↔ ∀ k, m.get k = none := by
  constructor
  · intro hempty k
    rw [get, List.isEmpty_iff.mp hempty, SortedMap.get_nil]
  · intro hnone
    rw [isEmpty, List.isEmpty_iff, List.eq_nil_iff_forall_not_mem]
    rintro ⟨k, v⟩ hmem
    rw [mem_entries, hnone k] at hmem
    cases hmem

theorem isEmpty_eq_false_of_get (h : m.get k = some v) : m.isEmpty = false := by
  rw [Bool.eq_false_iff, Ne, isEmpty_iff]
  intro hnone
  rw [hnone k] at h
  cases h

/-! ### Entries -/

variable (order : κ → Nat)

theorem mem_iterate {entry : κ × ν} : entry ∈ m.iterate order ↔ m.get entry.1 = some entry.2 :=
  (perm_insertionSort _ _).mem_iff.trans mem_entries

theorem iterate_perm (m : OrderedMap κ ν) : (m.iterate order).Perm m.entries :=
  perm_insertionSort _ _

/-- An order can put any key first. -/
theorem iterate_eq_cons {order : κ → Nat} (hget : m.get k = some v)
    (horder : ∀ k', k' ≠ k → order k < order k') : ∃ rest, m.iterate order = (k, v) :: rest := by
  have hmem : (k, v) ∈ m.iterate order := (mem_iterate order).mpr hget
  have hsorted : (m.iterate order).Pairwise fun a b => order a.1 ≤ order b.1 :=
    pairwise_insertionSort _ _
  cases hiterate : m.iterate order with
  | nil => rw [hiterate] at hmem; cases hmem
  | cons first rest =>
    rw [hiterate] at hmem hsorted
    rcases mem_cons.mp hmem with rfl | hrest
    · exact ⟨rest, rfl⟩
    · have hle : order first.1 ≤ order k := (pairwise_cons.mp hsorted).1 _ hrest
      have hkey : first.1 = k := by
        by_contra hne
        exact absurd (horder first.1 hne) (not_lt.mpr hle)
      have hvalue : m.get first.1 = some first.2 :=
        (mem_iterate order).mp (hiterate ▸ mem_cons_self)
      rw [hkey, hget, Option.some_inj] at hvalue
      exact ⟨rest, by rw [← hkey, hvalue]⟩

theorem entries_nodup (m : OrderedMap κ ν) : m.entries.Nodup := m.sorted.nodup

theorem mem_keys : k ∈ m.keys ↔ ∃ v, m.get k = some v := by
  simp [keys, mem_entries]

theorem keys_nodup (m : OrderedMap κ ν) : m.keys.Nodup := by
  rw [keys, List.Nodup, pairwise_map]
  exact m.sorted.imp ne_of_lt

theorem iterate_keys_nodup (m : OrderedMap κ ν) : ((m.iterate order).map Prod.fst).Nodup :=
  ((m.iterate_perm order).map Prod.fst).nodup_iff.mpr m.keys_nodup

/-- The entry of a key, and the entries of the others. -/
theorem entries_perm (h : m.get k = some v) : m.entries.Perm ((k, v) :: (m.erase k).entries) := by
  have hnew : (k, v) ∉ (m.erase k).entries := by
    rw [mem_entries]
    simp
  refine (perm_ext_iff_of_nodup m.entries_nodup
    (nodup_cons.mpr ⟨hnew, (m.erase k).entries_nodup⟩)).mpr ?_
  rintro ⟨k', v'⟩
  rw [mem_cons, mem_entries, mem_entries, get_erase]
  by_cases hk : k' = k
  · subst hk
    simp [h, eq_comm]
  · simp [hk]

theorem entries_insert_perm (m : OrderedMap κ ν) (k : κ) (v : ν) :
    (m.insert k v).entries.Perm ((k, v) :: (m.erase k).entries) := by
  have herase : (m.insert k v).erase k = m.erase k := by
    apply ext
    intro k'
    rw [get_erase, get_erase, get_insert]
    split <;> rfl
  rw [← herase]
  exact entries_perm (get_insert_self m k v)

theorem erase_of_get (h : m.get k = none) : m.erase k = m := by
  apply ext
  intro k'
  rw [get_erase]
  split
  · rename_i hk
    rw [hk, h]
  · rfl

theorem size_erase (h : m.get k = some v) : (m.erase k).size + 1 = m.size :=
  (entries_perm h).length_eq.symm

theorem size_insert_of_get (h : m.get k = some v) (v' : ν) : (m.insert k v').size = m.size := by
  rw [size, (entries_insert_perm m k v').length_eq, size, (entries_perm h).length_eq]
  rfl

theorem size_insert_of_none (h : m.get k = none) (v : ν) : (m.insert k v).size = m.size + 1 := by
  rw [size, (entries_insert_perm m k v).length_eq, erase_of_get h]
  rfl

@[simp] theorem size_map (m : OrderedMap κ ν) : (m.map f).size = m.size := by
  simp [size, map]

end OrderedMap
