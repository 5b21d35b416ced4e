import Mathlib.Data.List.NodupEquivFin
import Mathlib.Data.String.Basic
import NemoRelay.Lib.OrderedMap
import NemoRelay.Lib.StableSort
import NemoRelay.Lib.Transition

/-!
# Sorted registries

`SortedRegistry` of `registry.rs`. Registries are handles on shared storage: a clone shares the
storage of its original, and the first mutation through either of them copies it. The heap of
storages and the live handles are the state; a handle is named by its index.
-/

namespace NemoRelay

open Option (bind_some bind_congr bind_eq_some_iff map_eq_some_iff)

open Function List

class RegistryEntry (T : Type) where
  name : T → String
  priority : T → Int

open RegistryEntry StableSort

/-- A `HashMap` from the embedded names to the entries. The order in which the map is iterated is
given with every iteration. -/
structure EntryMap (T : Type) [RegistryEntry T] where
  table : OrderedMap String T
  named : ∀ {key entry}, table.get key = some entry → name entry = key

variable {key : String}

namespace EntryMap

variable {T : Type} [RegistryEntry T]

def empty : EntryMap T := ⟨.empty, nofun⟩

def get (m : EntryMap T) (key : String) : Option T := m.table.get key

def containsKey (m : EntryMap T) (key : String) : Bool := (m.get key).isSome

def remove (m : EntryMap T) (key : String) : EntryMap T where
  table := m.table.erase key
  named h := m.named (OrderedMap.get_of_get_erase h)

/-- Inserting replaces the entry of the same name. -/
def insert (m : EntryMap T) (entry : T) : EntryMap T where
  table := m.table.insert (name entry) entry
  named h := by
    obtain ⟨rfl, rfl⟩ | ⟨-, h⟩ := OrderedMap.get_insert_eq_some h
    · rfl
    · exact m.named h

def keys (m : EntryMap T) : List String := m.table.keys

variable {m : EntryMap T}

@[simp] theorem get_empty (key : String) : (empty : EntryMap T).get key = none := rfl

theorem get_remove (m : EntryMap T) (removed key : String) :
    (m.remove removed).get key = if key = removed then none else m.get key :=
  m.table.get_erase removed key

theorem get_insert (m : EntryMap T) (entry : T) (key : String) :
    (m.insert entry).get key = if key = name entry then some entry else m.get key :=
  m.table.get_insert (name entry) entry key

end EntryMap

structure RegistryStorage (T : Type) [RegistryEntry T] where
  entries : EntryMap T
  sortedKeys : List String

section Storage

variable {T : Type} [RegistryEntry T]

/-- The order of the entries of one registry. -/
def entryKey (entry : T) : Int ×ₗ String := toLex (priority entry, name entry)

namespace RegistryStorage

def new : RegistryStorage T := ⟨.empty, []⟩

-- The keys that are sorted are those of the map, so that the look-up of a priority succeeds.
def sortKey (entries : EntryMap T) (key : String) : Int ×ₗ String :=
  toLex (((entries.get key).map priority).getD 0, key)

/-- `resort`, when the map is iterated in the order `keys`. -/
def resort (storage : RegistryStorage T) (keys : List String) : RegistryStorage T :=
  { storage with sortedKeys := sortByKey (sortKey storage.entries) keys }

/-- `sorted_values`. -/
def sortedValues (storage : RegistryStorage T) : List T :=
  storage.sortedKeys.filterMap storage.entries.get

/-- What the eager sort maintains. -/
structure Sorted (storage : RegistryStorage T) : Prop where
  mem : ∀ key, key ∈ storage.sortedKeys ↔ key ∈ storage.entries.keys
  pairwise : storage.sortedKeys.Pairwise fun left right =>
    sortKey storage.entries left < sortKey storage.entries right

theorem sorted_new : (new : RegistryStorage T).Sorted := ⟨fun _ => Iff.rfl, List.Pairwise.nil⟩

theorem sorted_resort {storage : RegistryStorage T} {keys : List String}
    (hperm : keys.Perm storage.entries.keys) : (storage.resort keys).Sorted := by
  refine ⟨?_, ?_⟩
  · intro key
    exact (mem_sortByKey _).trans hperm.mem_iff
  · apply pairwise_sortByKey_lt
    have hnodup : keys.Nodup := hperm.nodup_iff.mpr storage.entries.table.keys_nodup
    refine hnodup.map ?_
    intro left right heq
    exact congrArg (fun key => (ofLex key).2) heq

theorem sortKey_of_get {entries : EntryMap T} {entry : T} (h : entries.get key = some entry) :
    sortKey entries key = entryKey entry := by
  rw [sortKey, h, entryKey, entries.named h]
  rfl

variable {storage : RegistryStorage T}

theorem Sorted.mem_sortedValues (h : storage.Sorted) {entry : T} :
    entry ∈ storage.sortedValues ↔ storage.entries.get (name entry) = some entry := by
  rw [sortedValues, mem_filterMap]
  constructor
  · rintro ⟨key, -, hget⟩
    rwa [storage.entries.named hget]
  · intro hget
    exact ⟨name entry, (h.mem _).mpr (OrderedMap.mem_keys.mpr ⟨entry, hget⟩), hget⟩

theorem Sorted.pairwise_sortedValues (h : storage.Sorted) :
    storage.sortedValues.Pairwise fun a b => entryKey a < entryKey b := by
  refine h.pairwise.filterMap storage.entries.get ?_
  intro left right hlt a ha b hb
  rwa [sortKey_of_get ha, sortKey_of_get hb] at hlt

end RegistryStorage

end Storage

/-- A handle: empty registries have no storage. -/
structure SortedRegistry where
  storage : Option Nat
  deriving DecidableEq

/-- All storages, and the handles that hold them. A handle that was dropped is `none`. -/
structure Registries (T : Type) [RegistryEntry T] where
  storages : List (RegistryStorage T)
  handles : List (Option SortedRegistry)

namespace Registries

variable {T : Type} [RegistryEntry T] (s : Registries T) (h : Nat)

def registry : Option SortedRegistry := (s.handles[h]?).join

/-- The storage that a handle refers to. -/
def storage (s : Registries T) (h : Nat) : Option (RegistryStorage T) :=
  (s.registry h).bind fun registry => registry.storage.bind fun address => s.storages[address]?

def sortedValues (s : Registries T) (h : Nat) : List T :=
  ((s.storage h).map RegistryStorage.sortedValues).getD []

/-- The entry registered under a name. -/
def lookup (key : String) : Option T :=
  (s.storage h).bind fun storage => storage.entries.get key

def strongCount (address : Nat) : Nat :=
  s.handles.count (some ⟨some address⟩)

/-- `Arc::new`, stored in a handle. -/
def allocate (storage : RegistryStorage T) : Registries T × Nat :=
  ({ storages := s.storages ++ [storage]
     handles := s.handles.set h (some ⟨some s.storages.length⟩) }, s.storages.length)

def getOrInsert (registry : SortedRegistry) : Registries T × Nat :=
  match registry.storage with
  | some address => (s, address)
  | none => s.allocate h .new

/-- `Arc::make_mut`: storage that another handle holds as well is copied. -/
def makeMut (h address : Nat) : Registries T × Nat :=
  if s.strongCount address = 1 then (s, address)
  else s.allocate h ((s.storages[address]?).getD .new)

/-- Change the map of a storage and sort its keys again. There is no such step unless `keys` is
an order in which the changed map can be iterated. -/
def mutate (address : Nat) (change : EntryMap T → EntryMap T) (keys : List String) :
    Option (Registries T) :=
  (s.storages[address]?).bind fun storage =>
    let storage := { storage with entries := change storage.entries }
    if keys.Perm storage.entries.keys then
      some { s with storages := s.storages.set address (storage.resort keys) }
    else none

def register (entry : T) (keys : List String) : Option (Except String Unit × Registries T) :=
  (s.registry h).bind fun registry =>
    if (s.storage h).any fun storage => storage.entries.containsKey (name entry) then
      some (.error (name entry ++ " already exists"), s)
    else
      let (s, address) := s.getOrInsert h registry
      let (s, address) := s.makeMut h address
      (s.mutate address (fun entries => entries.insert entry) keys).map fun s => (.ok (), s)

def deregister (key : String) (keys : List String) : Option (Bool × Registries T) :=
  (s.registry h).bind fun registry =>
    match registry.storage with
    | none => some (false, s)
    | some address =>
      if !((s.storage h).any fun storage => storage.entries.containsKey key) then some (false, s)
      else
        let (s, address) := s.makeMut h address
        (s.mutate address (fun entries => entries.remove key) keys).map fun s => (true, s)

/-- A clone shares the storage. Its handle is the next index. -/
def clone : Option (Registries T) :=
  (s.registry h).map fun registry => { s with handles := s.handles ++ [some registry] }

def create : Registries T := { s with handles := s.handles ++ [some ⟨none⟩] }

def drop : Registries T := { s with handles := s.handles.set h none }

inductive Action (T : Type)
  | create
  | register (h : Nat) (entry : T) (keys : List String)
  | deregister (h : Nat) (key : String) (keys : List String)
  | clone (h : Nat)
  | drop (h : Nat)

/-- The handle that an action writes to. -/
def Action.target : Action T → Option Nat
  | .register h _ _ | .deregister h _ _ | .drop h => some h
  | .create | .clone _ => none

def step : Action T → Option (Registries T)
  | .create => some s.create
  | .register h entry keys => (s.register h entry keys).map Prod.snd
  | .deregister h key keys => (s.deregister h key keys).map Prod.snd
  | .clone h => s.clone h
  | .drop h => (s.registry h).map fun _ => s.drop h

def system : System (Registries T) (Action T) where
  init s := s = ⟨[], []⟩
  step := step

/-! ### Copy on write -/

/-- Every handle refers to a sorted storage. -/
structure Valid (s : Registries T) : Prop where
  bounds : ∀ h address, s.registry h = some ⟨some address⟩ → address < s.storages.length
  sorted : ∀ storage ∈ s.storages, storage.Sorted

/-- A handle is the only one that refers to a storage. -/
structure Exclusive (s : Registries T) (h address : Nat) : Prop where
  owns : s.registry h = some ⟨some address⟩
  only : ∀ h', s.registry h' = some ⟨some address⟩ → h' = h

variable {s t : Registries T} {h address : Nat} {keys : List String} {registry : SortedRegistry}

theorem registry_eq_some : s.registry h = some registry ↔ s.handles[h]? = some (some registry) := by
  rw [Registries.registry, Option.join_eq_some_iff]

theorem lt_length_of_registry (hr : s.registry h = some registry) : h < s.handles.length := by
  rw [registry_eq_some] at hr
  exact (List.getElem?_eq_some_iff.mp hr).1

theorem storage_of_registry (hr : s.registry h = some registry) :
    s.storage h = registry.storage.bind fun address => s.storages[address]? := by
  rw [storage, hr, bind_some]

theorem Valid.exists_storage (hs : s.Valid) (hr : s.registry h = some ⟨some address⟩) :
    ∃ storage, s.storages[address]? = some storage ∧ s.storage h = some storage ∧
      storage.Sorted := by
  have hlt := hs.bounds h address hr
  refine ⟨s.storages[address], getElem?_eq_getElem hlt, ?_, hs.sorted _ (getElem_mem hlt)⟩
  rw [storage_of_registry hr]
  exact getElem?_eq_getElem hlt

/-- A storage with a strong count of one has a single handle. -/
theorem exclusive_of_strongCount (hr : s.registry h = some ⟨some address⟩)
    (hcount : s.strongCount address = 1) : s.Exclusive h address := by
  refine ⟨hr, ?_⟩
  intro h' hr'
  by_contra hne
  rw [registry_eq_some, getElem?_eq_some_iff] at hr hr'
  obtain ⟨hlt, hget⟩ := hr
  obtain ⟨hlt', hget'⟩ := hr'
  have hdup : List.Duplicate (some ⟨some address⟩ : Option SortedRegistry) s.handles := by
    rw [duplicate_iff_exists_distinct_get]
    obtain hord | hord := Nat.lt_or_gt_of_ne hne
    · exact ⟨⟨h', hlt'⟩, ⟨h, hlt⟩, hord, hget'.symm, hget.symm⟩
    · exact ⟨⟨h, hlt⟩, ⟨h', hlt'⟩, hord, hget.symm, hget'.symm⟩
  rw [duplicate_iff_two_le_count] at hdup
  have htwo : 2 ≤ s.strongCount address := by
    rw [strongCount]
    convert hdup
  omega

variable {held : Option SortedRegistry}

theorem registry_set (storages : List (RegistryStorage T))
    (hheld : held = none ∨ h < s.handles.length) :
    Registries.registry ⟨storages, s.handles.set h held⟩ = update s.registry h held := by
  funext h'
  simp only [Registries.registry, getElem?_set, update_apply]
  grind

/-- When one handle changes, the others see what they saw before. -/
theorem Valid.update (hs : s.Valid) (hreg : t.registry = update s.registry h held)
    (hstorages : t.storages = s.storages)
    (hbound : ∀ address, held = some ⟨some address⟩ → address < s.storages.length) :
    t.Valid ∧ t.storage = Function.update s.storage h (held.bind fun registry =>
      registry.storage.bind fun address => s.storages[address]?) := by
  refine ⟨⟨?_, hstorages ▸ hs.sorted⟩, funext fun h' => ?_⟩
  · intro h' address hr
    rw [hreg, update_apply] at hr
    rw [hstorages]
    split at hr
    · exact hbound address hr
    · exact hs.bounds h' address hr
  · rw [Registries.storage, hreg, hstorages, update_apply, update_apply]
    split <;> rfl

variable {storage : RegistryStorage T}

/-- A fresh storage belongs to its handle alone, and no other handle notices. -/
theorem allocate_spec (hs : s.Valid) (hsorted : storage.Sorted) (hlt : h < s.handles.length) :
    (s.allocate h storage).1.Valid ∧ (s.allocate h storage).1.Exclusive h s.storages.length ∧
      (s.allocate h storage).1.storage = update s.storage h (some storage) := by
  have hreg : (s.allocate h storage).1.registry =
      update s.registry h (some ⟨some s.storages.length⟩) := registry_set _ (.inr hlt)
  refine ⟨⟨?_, ?_⟩, ⟨?_, ?_⟩, ?_⟩
  · intro h' address' hr
    rw [hreg, update_apply] at hr
    simp only [allocate, length_append]
    split at hr
    · cases hr
      exact Nat.lt_succ_self _
    · exact Nat.lt_succ_of_lt (hs.bounds h' address' hr)
  · exact forall_mem_append.mpr ⟨hs.sorted, forall_mem_singleton.mpr hsorted⟩
  · rw [hreg, update_self]
  · intro h' hr
    by_contra hne
    rw [hreg, update_of_ne hne] at hr
    exact Nat.lt_irrefl _ (hs.bounds h' _ hr)
  · funext h'
    rw [Registries.storage, hreg]
    by_cases heq : h' = h
    · subst heq
      simp [allocate]
    · rw [update_of_ne heq, update_of_ne heq, Registries.storage]
      cases hr : s.registry h' with
      | none => rfl
      | some registry =>
        obtain ⟨stored⟩ := registry
        cases stored with
        | none => rfl
        | some address' =>
          exact getElem?_append_left (hs.bounds h' address' hr)

theorem getOrInsert_spec (hs : s.Valid) (hr : s.registry h = some registry) :
    (s.getOrInsert h registry).1.Valid ∧
      (s.getOrInsert h registry).1.registry h = some ⟨some (s.getOrInsert h registry).2⟩ ∧
      (s.getOrInsert h registry).1.storage =
        update s.storage h (some ((s.storage h).getD .new)) := by
  obtain ⟨stored⟩ := registry
  cases stored with
  | none =>
    obtain ⟨hvalid, hexcl, hstorage⟩ :=
      allocate_spec hs RegistryStorage.sorted_new (lt_length_of_registry hr)
    have hnone : s.storage h = none := storage_of_registry hr
    rw [hnone]
    exact ⟨hvalid, hexcl.owns, hstorage⟩
  | some address =>
    refine ⟨hs, hr, ?_⟩
    obtain ⟨storage, -, hsome, -⟩ := hs.exists_storage hr
    rw [hsome, Option.getD_some, ← hsome, update_eq_self]
    rfl

theorem makeMut_spec (hs : s.Valid) (hr : s.registry h = some ⟨some address⟩) :
    (s.makeMut h address).1.Valid ∧
      (s.makeMut h address).1.Exclusive h (s.makeMut h address).2 ∧
      (s.makeMut h address).1.storage = s.storage := by
  obtain ⟨storage, hget, hsome, hsorted⟩ := hs.exists_storage hr
  rw [makeMut]
  split
  · rename_i hcount
    exact ⟨hs, exclusive_of_strongCount hr hcount, rfl⟩
  · obtain ⟨hvalid, hexcl, hstorage⟩ := allocate_spec hs hsorted (lt_length_of_registry hr)
    rw [hget]
    refine ⟨hvalid, hexcl, hstorage.trans ?_⟩
    rw [← hsome, update_eq_self]

variable {change : EntryMap T → EntryMap T}

/-- A change of a storage with a single handle is seen through that handle only. -/
theorem mutate_spec (hs : s.Valid) (hexcl : s.Exclusive h address)
    (hm : s.mutate address change keys = some t) : t.Valid ∧ t.handles = s.handles ∧
      ∃ old, s.storage h = some old ∧ keys.Perm (change old.entries).keys ∧
        t.storage = update s.storage h
          (some (RegistryStorage.resort { old with entries := change old.entries } keys)) := by
  obtain ⟨old, hget, hsome, -⟩ := hs.exists_storage hexcl.owns
  rw [mutate, hget, bind_some] at hm
  simp only at hm
  split at hm
  · rename_i hperm
    cases hm
    refine ⟨⟨?_, ?_⟩, rfl, old, hsome, hperm, ?_⟩
    · intro h' address' hr
      rw [length_set]
      exact hs.bounds h' address' hr
    · intro storage hmem
      obtain hold | rfl := mem_or_eq_of_mem_set hmem
      · exact hs.sorted storage hold
      · exact RegistryStorage.sorted_resort hperm
    · funext h'
      change ((s.registry h').bind fun registry => registry.storage.bind fun address' =>
        (s.storages.set address _)[address']?) = _
      by_cases heq : h' = h
      · subst heq
        have hlt := hs.bounds h' address hexcl.owns
        rw [hexcl.owns]
        simp [hlt]
      · rw [update_of_ne heq]
        refine bind_congr ?_
        intro registry hr
        refine bind_congr ?_
        intro address' ha
        have hne : address ≠ address' := by
          rintro rfl
          obtain ⟨stored⟩ := registry
          cases ha
          exact heq (hexcl.only h' hr)
        exact getElem?_set_ne hne
  · cases hm

@[simp] theorem length_handles_getOrInsert (registry : SortedRegistry) :
    (s.getOrInsert h registry).1.handles.length = s.handles.length := by
  rw [getOrInsert]
  split
  · rfl
  · exact length_set

@[simp] theorem length_handles_makeMut :
    (s.makeMut h address).1.handles.length = s.handles.length := by
  rw [makeMut]
  split
  · rfl
  · exact length_set

/-! ### Every handle behaves as if it owned its storage -/

/-- A handle was written and no other was. -/
structure Written (s t : Registries T) (h : Nat) (entries : EntryMap T) : Prop where
  valid : t.Valid
  length : t.handles.length = s.handles.length
  storage : ∃ new, new.Sorted ∧ new.entries = entries ∧ t.storage = update s.storage h (some new)

theorem lookup_isSome_iff (key : String) : (s.lookup h key).isSome =
    (s.storage h).any fun storage => storage.entries.containsKey key := by
  rw [lookup]
  cases s.storage h with
  | none | some storage => rfl

theorem makeMut_mutate_spec (hs : s.Valid) (hr : s.registry h = some ⟨some address⟩)
    (hm : (s.makeMut h address).1.mutate (s.makeMut h address).2 change keys = some t) :
    ∃ old, s.storage h = some old ∧ s.Written t h (change old.entries) := by
  obtain ⟨hvalid, hexcl, hstorage⟩ := makeMut_spec hs hr
  obtain ⟨hvalid', hlen, old, hold, hperm, hstorage'⟩ := mutate_spec hvalid hexcl hm
  rw [hstorage] at hold hstorage'
  refine ⟨old, hold, hvalid', ?_, _, RegistryStorage.sorted_resort hperm, rfl, hstorage'⟩
  rw [hlen, length_handles_makeMut]

variable {entry : T}

theorem register_ok (hs : s.Valid) (hreg : s.register h entry keys = some (.ok (), t)) :
    s.lookup h (name entry) = none ∧
      s.Written t h (((s.storage h).getD .new).entries.insert entry) := by
  rw [register, bind_eq_some_iff] at hreg
  obtain ⟨registry, hr, hreg⟩ := hreg
  rw [← lookup_isSome_iff] at hreg
  split at hreg
  · cases hreg
  · rename_i hnone
    rw [map_eq_some_iff] at hreg
    obtain ⟨u, hm, heq⟩ := hreg
    cases heq
    obtain ⟨hvalid, howns, hstorage⟩ := getOrInsert_spec hs hr
    obtain ⟨old, hold, hwritten⟩ := makeMut_mutate_spec hvalid howns hm
    rw [hstorage, update_self, Option.some.injEq] at hold
    subst hold
    obtain ⟨new, hsorted, hentries, hupdate⟩ := hwritten.storage
    refine ⟨by simpa using hnone, hwritten.valid, ?_, new, hsorted, hentries, ?_⟩
    · rw [hwritten.length, length_handles_getOrInsert]
    · rw [hupdate, hstorage, update_idem]

variable {entries : EntryMap T}

theorem Written.frame (hw : s.Written t h entries) :
    t.Valid ∧ s.handles.length ≤ t.handles.length ∧
      ∀ h', h' < s.handles.length → some h ≠ some h' → t.storage h' = s.storage h' := by
  obtain ⟨new, -, -, hstorage⟩ := hw.storage
  refine ⟨hw.valid, hw.length.ge, ?_⟩
  intro h' _ hne
  rw [hstorage, update_of_ne]
  rintro rfl
  exact hne rfl

theorem register_error {error : String} (hreg : s.register h entry keys = some (.error error, t)) :
    t = s ∧ (s.lookup h (name entry)).isSome := by
  rw [register, bind_eq_some_iff] at hreg
  obtain ⟨registry, hr, hreg⟩ := hreg
  rw [← lookup_isSome_iff] at hreg
  split at hreg
  · rename_i hsome
    cases hreg
    exact ⟨rfl, hsome⟩
  · rw [map_eq_some_iff] at hreg
    obtain ⟨u, -, heq⟩ := hreg
    cases heq

theorem deregister_true (hs : s.Valid) (hreg : s.deregister h key keys = some (true, t)) :
    ∃ old, s.storage h = some old ∧ s.Written t h (old.entries.remove key) := by
  rw [deregister, bind_eq_some_iff] at hreg
  obtain ⟨⟨stored⟩, hr, hreg⟩ := hreg
  cases stored with
  | none => cases hreg
  | some address =>
    simp only at hreg
    split at hreg
    · cases hreg
    · rw [map_eq_some_iff] at hreg
      obtain ⟨u, hm, heq⟩ := hreg
      cases heq
      exact makeMut_mutate_spec hs hr hm

theorem deregister_false (hreg : s.deregister h key keys = some (false, t)) : t = s := by
  rw [deregister, bind_eq_some_iff] at hreg
  obtain ⟨⟨stored⟩, hr, hreg⟩ := hreg
  cases stored with
  | none =>
    cases hreg
    rfl
  | some address =>
    simp only at hreg
    split at hreg
    · cases hreg
      rfl
    · rw [map_eq_some_iff] at hreg
      obtain ⟨u, -, heq⟩ := hreg
      cases heq

/-- A new handle, and the others as they were. -/
theorem registry_append (held : Option SortedRegistry) :
    Registries.registry { s with handles := s.handles ++ [held] } =
      update s.registry s.handles.length held := by
  funext h'
  simp only [Registries.registry, getElem?_append, update_apply]
  grind

section

variable (hs : s.Valid)
include hs

theorem clone_spec (hc : s.clone h = some t) : t.Valid ∧
    t.handles.length = s.handles.length + 1 ∧
    t.storage = update s.storage s.handles.length (s.storage h) := by
  rw [clone, map_eq_some_iff] at hc
  obtain ⟨registry, hr, rfl⟩ := hc
  obtain ⟨hvalid, hstorage⟩ := hs.update (registry_append (some registry)) rfl
    fun address ha => hs.bounds h address (hr.trans ha)
  rw [storage_of_registry hr]
  exact ⟨hvalid, length_append, hstorage⟩

theorem create_spec : s.create.Valid ∧
    s.create.handles.length = s.handles.length + 1 ∧
    s.create.storage = update s.storage s.handles.length none := by
  obtain ⟨hvalid, hstorage⟩ := hs.update (registry_append (some ⟨none⟩)) rfl nofun
  exact ⟨hvalid, length_append, hstorage⟩

theorem drop_spec : (s.drop h).Valid ∧
    (s.drop h).handles.length = s.handles.length ∧
    (s.drop h).storage = update s.storage h none := by
  obtain ⟨hvalid, hstorage⟩ := hs.update (registry_set _ (.inl rfl)) rfl nofun
  exact ⟨hvalid, length_set, hstorage⟩

/-- What a step does to the storages that the handles see: it changes the one of its target, or
of the handle it creates. -/
theorem step_spec {action : Action T} (hst : s.step action = some t) :
    t.Valid ∧ s.handles.length ≤ t.handles.length ∧
      ∀ h', h' < s.handles.length → action.target ≠ some h' → t.storage h' = s.storage h' := by
  cases action with
  | create =>
    cases hst
    obtain ⟨hvalid, hlen, hstorage⟩ := create_spec hs
    exact ⟨hvalid, by omega, fun h' hlt _ => by rw [hstorage, update_of_ne hlt.ne]⟩
  | register h entry keys =>
    rw [step, map_eq_some_iff] at hst
    obtain ⟨⟨result, u⟩, hreg, rfl⟩ := hst
    cases result with
    | error error =>
      obtain ⟨rfl, -⟩ := register_error hreg
      exact ⟨hs, le_rfl, fun _ _ _ => rfl⟩
    | ok _ =>
      obtain ⟨-, hwritten⟩ := register_ok hs hreg
      exact hwritten.frame
  | deregister h key keys =>
    rw [step, map_eq_some_iff] at hst
    obtain ⟨⟨result, u⟩, hreg, rfl⟩ := hst
    cases result with
    | false =>
      obtain rfl := deregister_false hreg
      exact ⟨hs, le_rfl, fun _ _ _ => rfl⟩
    | true =>
      obtain ⟨old, -, hwritten⟩ := deregister_true hs hreg
      exact hwritten.frame
  | clone h =>
    obtain ⟨hvalid, hlen, hstorage⟩ := clone_spec hs hst
    exact ⟨hvalid, by omega, fun h' hlt _ => by rw [hstorage, update_of_ne hlt.ne]⟩
  | drop h =>
    rw [step, map_eq_some_iff] at hst
    obtain ⟨registry, -, rfl⟩ := hst
    obtain ⟨hvalid, hlen, hstorage⟩ := drop_spec hs
    refine ⟨hvalid, hlen.ge, ?_⟩
    intro h' _ htarget
    rw [hstorage, update_of_ne]
    rintro rfl
    exact htarget rfl

end

theorem reachable_valid (hs : system.Reachable s) : s.Valid := by
  have hind : (system (T := T)).Inductive Valid := by
    refine ⟨?_, ?_⟩
    · rintro u rfl
      refine ⟨?_, nofun⟩
      intro h address hr
      cases hr
    · intro u action v hu hst
      exact (step_spec hu hst).1
  exact hind.reachable hs

/-- A handle that no action of a run writes to keeps its storage. -/
theorem run_frame (hs : s.Valid) {actions : List (Action T)}
    (hrun : system.run s actions = some t) (hlt : h < s.handles.length)
    (htarget : ∀ action ∈ actions, action.target ≠ some h) : t.storage h = s.storage h := by
  induction actions generalizing s with
  | nil =>
    cases hrun
    rfl
  | cons action actions ih =>
    rw [System.run_cons, bind_eq_some_iff] at hrun
    obtain ⟨u, hst, hrun⟩ := hrun
    obtain ⟨hvalid, hlen, hframe⟩ := step_spec hs hst
    rw [ih hvalid hrun (Nat.lt_of_lt_of_le hlt hlen) fun a ha =>
      htarget a (mem_cons_of_mem _ ha)]
    exact hframe h hlt (htarget action mem_cons_self)

/-! ### The entries of a registry -/

theorem Valid.sorted_storage (hs : s.Valid)
    (hst : s.storage h = some storage) : storage.Sorted := by
  rw [Registries.storage, bind_eq_some_iff] at hst
  obtain ⟨registry, -, hst⟩ := hst
  rw [bind_eq_some_iff] at hst
  obtain ⟨address, -, hget⟩ := hst
  exact hs.sorted storage (mem_of_getElem? hget)

/-- A registry lists exactly what is registered. -/
theorem mem_sortedValues (hs : s.Valid) :
    entry ∈ s.sortedValues h ↔ s.lookup h (name entry) = some entry := by
  rw [sortedValues, lookup]
  cases hst : s.storage h with
  | none => simp
  | some storage => exact (hs.sorted_storage hst).mem_sortedValues

theorem pairwise_sortedValues (hs : s.Valid) :
    (s.sortedValues h).Pairwise fun a b => entryKey a < entryKey b := by
  rw [sortedValues]
  cases hst : s.storage h with
  | none => exact List.Pairwise.nil
  | some storage => exact (hs.sorted_storage hst).pairwise_sortedValues

theorem lookup_written (hw : s.Written t h entries) (h' : Nat)
    (key : String) : t.lookup h' key = if h' = h then entries.get key else s.lookup h' key := by
  obtain ⟨new, -, rfl, hstorage⟩ := hw.storage
  rw [lookup, hstorage, update_apply]
  split <;> rfl

/-- A successful registration adds the entry under its name. -/
theorem lookup_register (hs : s.Valid) (hreg : s.register h entry keys = some (.ok (), t))
    (h' : Nat) (key : String) :
    t.lookup h' key =
      if h' = h ∧ key = name entry then some entry else s.lookup h' key := by
  have hold : ((s.storage h).getD .new).entries.get key = s.lookup h key := by
    rw [lookup]
    cases s.storage h <;> rfl
  rw [lookup_written (register_ok hs hreg).2, EntryMap.get_insert, hold]
  by_cases heq : h' = h
  · subst heq
    simp
  · simp [heq]

/-- A successful removal takes the name away. -/
theorem lookup_deregister (hs : s.Valid) {removed : String}
    (hreg : s.deregister h removed keys = some (true, t)) (h' : Nat) (key : String) :
    t.lookup h' key = if h' = h ∧ key = removed then none else s.lookup h' key := by
  obtain ⟨old, hold, hwritten⟩ := deregister_true hs hreg
  have hlookup : old.entries.get key = s.lookup h key := by
    rw [lookup, hold, bind_some]
  rw [lookup_written hwritten, EntryMap.get_remove, hlookup]
  by_cases heq : h' = h
  · subst heq
    simp
  · simp [heq]

end Registries

end NemoRelay
