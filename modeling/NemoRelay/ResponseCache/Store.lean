import Mathlib
import NemoRelay.Codec.Json
import NemoRelay.Lib.LazyQueue
import NemoRelay.Lib.Transition

/-!
# The in-memory response cache

`InMemoryCacheStore` keeps its entries in a map and their insertion order in a queue that is
cleaned lazily. The store behaves like a plain list of entries, oldest first: `ReferenceStore`
has neither generations nor stale nodes.

The clock readings of `get` are arguments, and so is the number of bytes that serializing a
response takes. Byte counts are natural numbers.
-/

namespace NemoRelay.ResponseCache

open List hiding drop

open SortedMap LazyQueue

structure CacheEntry where
  response : Json
  createdUnixMs : Nat
  expiresUnixMs : Nat
  keyHash : String
  modelName : Option String
  providerName : Option String

def CacheEntry.isExpired (entry : CacheEntry) (nowMs : Nat) : Bool :=
  entry.expiresUnixMs ≤ nowMs

structure StoredEntry where
  entry : CacheEntry
  size : Nat
  generation : Nat

/-- The locked state of the store. -/
structure Inner where
  map : List (String × StoredEntry) := []
  totalBytes : Nat := 0
  order : List (Nat × String) := []
  nextGeneration : Nat := 0

structure InMemoryCacheStore where
  inner : Inner
  maxBytes : Nat

def entryOverhead : Nat := 256

variable (responseBytes : Json → Nat)

/-- The approximate size of an entry in memory. -/
def entrySize (entry : CacheEntry) : Nat :=
  responseBytes entry.response + entry.keyHash.utf8ByteSize * 2 +
    entry.modelName.elim 0 String.utf8ByteSize + entry.providerName.elim 0 String.utf8ByteSize +
    entryOverhead

namespace Inner

variable (inner : Inner)

/-- The map entry goes, and its bytes with it. Its order node stays behind. -/
def remove (key : String) : Inner :=
  match SortedMap.get inner.map key with
  | some stored =>
    { inner with
      map := erase inner.map key
      totalBytes := inner.totalBytes - stored.size }
  | none => inner

/-- Whether the map still holds the entry that the node was made for. -/
def isLive (node : Nat × String) : Bool :=
  (SortedMap.get inner.map node.2).any (·.generation = node.1)

/-- Pops order nodes until one of them is live. -/
def popOldest (inner : Inner) : (order : List (Nat × String)) → Inner × Bool
  | [] => ({ inner with order := [] }, false)
  | node :: order =>
    if inner.isLive node then ({ inner with order }.remove node.2, true)
    else inner.popOldest order

def evictOldest : Inner × Bool := inner.popOldest inner.order

theorem length_popOldest (order : List (Nat × String)) (h : (inner.popOldest order).2 = true) :
    (inner.popOldest order).1.order.length < order.length := by
  fun_induction popOldest with
  | case1 => cases h
  | case2 node order hlive =>
    unfold remove
    split <;> exact Nat.lt_succ_self _
  | case3 node order hlive ih => exact Nat.lt_succ_of_lt (ih h)

/-- Evicts oldest first until an entry of the given size fits. -/
def makeRoom (maxBytes size : Nat) (inner : Inner) : Inner :=
  if ¬ inner.map.isEmpty ∧ inner.totalBytes + size > maxBytes then
    if _h : inner.evictOldest.2 then makeRoom maxBytes size inner.evictOldest.1
    else inner.evictOldest.1
  else inner
termination_by inner.order.length
decreasing_by exact length_popOldest inner inner.order _h

/-- Drops the nodes whose key was replaced or removed. -/
def compact : Inner :=
  { inner with order := inner.order.filter inner.isLive }

def insertNew (key : String) (entry : CacheEntry) (size : Nat) : Inner where
  map := insert inner.map key { entry, size, generation := inner.nextGeneration }
  totalBytes := inner.totalBytes + size
  order := inner.order ++ [(inner.nextGeneration, key)]
  nextGeneration := inner.nextGeneration + 1

def compactIfLong : Inner :=
  if inner.order.length > inner.map.length * 2 + 64 then inner.compact else inner

end Inner

namespace InMemoryCacheStore

def new (maxBytes : Nat) : InMemoryCacheStore := { inner := {}, maxBytes := max maxBytes 1 }

def get (store : InMemoryCacheStore) (key : String) (now : Nat) :
    Option CacheEntry × InMemoryCacheStore :=
  match SortedMap.get store.inner.map key with
  | some stored =>
    if ¬ stored.entry.isExpired now then (some stored.entry, store)
    else (none, { store with inner := store.inner.remove key })
  | none => (none, store)

/-- The time to live is for backends with an expiry of their own. -/
def set (store : InMemoryCacheStore) (key : String) (entry : CacheEntry) (_ttl : Nat) :
    InMemoryCacheStore :=
  let size := entrySize responseBytes entry
  if size > store.maxBytes then { store with inner := store.inner.remove key }
  else
    { store with
      inner := (((store.inner.remove key).makeRoom store.maxBytes size).insertNew key entry
        size).compactIfLong }

def totalBytes (store : InMemoryCacheStore) : Nat := store.inner.totalBytes

end InMemoryCacheStore

/-- The calls on a store. A `get` comes with the clock reading it takes. -/
inductive Call
  | get (key : String) (now : Nat)
  | set (key : String) (entry : CacheEntry) (ttl : Nat)

inductive Reply
  | found (entry : Option CacheEntry)
  | stored

def storeMachine : Machine InMemoryCacheStore Call Reply where
  step store
    | .get key now => ((.found (store.get key now).1), (store.get key now).2)
    | .set key entry ttl => (.stored, store.set responseBytes key entry ttl)

/-! ### The reference store -/

/-- A cache as the list of its entries, oldest first. -/
structure ReferenceStore where
  entries : List (String × CacheEntry)
  maxBytes : Nat

namespace ReferenceStore

variable (responseBytes : Json → Nat)

def bytes (entries : List (String × CacheEntry)) : Nat :=
  (entries.map fun entry => entrySize responseBytes entry.2).sum

/-- Drops entries from the front until the rest leaves room for the given size. -/
def evictFront (maxBytes size : Nat) : List (String × CacheEntry) → List (String × CacheEntry)
  | [] => []
  | entry :: entries =>
    if bytes responseBytes (entry :: entries) + size > maxBytes then
      evictFront maxBytes size entries
    else entry :: entries

variable (store : ReferenceStore)

def drop (key : String) : ReferenceStore :=
  { store with entries := store.entries.filter fun entry => entry.1 ≠ key }

def get (key : String) (now : Nat) : Option CacheEntry × ReferenceStore :=
  match store.entries.find? fun entry => entry.1 = key with
  | some (_, entry) => if entry.isExpired now then (none, store.drop key) else (some entry, store)
  | none => (none, store)

def set (key : String) (entry : CacheEntry) : ReferenceStore :=
  let size := entrySize responseBytes entry
  if size > store.maxBytes then store.drop key
  else
    { store with
      entries := evictFront responseBytes store.maxBytes size (store.drop key).entries ++
        [(key, entry)] }

end ReferenceStore

open ReferenceStore

def referenceMachine : Machine ReferenceStore Call Reply where
  step store
    | .get key now => ((.found (store.get key now).1), (store.get key now).2)
    | .set key entry _ => (.stored, store.set responseBytes key entry)

/-! ### Keeping the store and the list in step -/

section Refinement

variable {responseBytes : Json → Nat} {inner : Inner}

/-- The contents of the store, oldest first. -/
def Inner.entries (inner : Inner) : List (String × CacheEntry) :=
  (live StoredEntry.generation (SortedMap.get inner.map) inner.order).map
    fun node => (node.1, node.2.entry)

structure Inner.Valid (responseBytes : Json → Nat) (inner : Inner) : Prop where
  sorted : SortedMap.Sorted inner.map
  tracks : LazyQueue.Tracks StoredEntry.generation (SortedMap.get inner.map) inner.order
    inner.nextGeneration
  sized : ∀ key stored, SortedMap.get inner.map key = some stored →
    stored.size = entrySize responseBytes stored.entry
  total : inner.totalBytes = bytes responseBytes inner.entries

variable {key : String}

namespace Inner

theorem Valid.mem_entries (h : inner.Valid responseBytes) {entry : CacheEntry} :
    (key, entry) ∈ inner.entries ↔
      ∃ stored, SortedMap.get inner.map key = some stored ∧ stored.entry = entry := by
  simp only [entries, mem_map, Prod.mk.injEq, Prod.exists]
  constructor
  · rintro ⟨_, stored, hlive, rfl, rfl⟩
    exact ⟨stored, h.tracks.mem_live.mp hlive, rfl⟩
  · rintro ⟨stored, hget, rfl⟩
    exact ⟨key, stored, h.tracks.mem_live.mpr hget, rfl, rfl⟩

theorem Valid.nodup_keys (h : inner.Valid responseBytes) : (inner.entries.map Prod.fst).Nodup := by
  rw [entries, map_map]
  exact h.tracks.nodup_keys

variable (inner : Inner)

theorem get_remove (key key' : String) :
    SortedMap.get (inner.remove key).map key' =
      if key' = key then none else SortedMap.get inner.map key' := by
  unfold remove
  cases hget : SortedMap.get inner.map key with
  | none =>
    by_cases hkey : key' = key
    · rw [if_pos hkey, hkey]
      exact hget
    · exact (if_neg hkey).symm
  | some stored => exact get_erase _ _ _

@[simp] theorem order_remove (key : String) : (inner.remove key).order = inner.order := by
  unfold remove
  split <;> rfl

@[simp] theorem nextGeneration_remove (key : String) :
    (inner.remove key).nextGeneration = inner.nextGeneration := by
  unfold remove
  split <;> rfl

end Inner

theorem bytes_filter_key (responseBytes : Json → Nat) {entries : List (String × CacheEntry)}
    {entry : CacheEntry} (hnodup : (entries.map Prod.fst).Nodup) (hmem : (key, entry) ∈ entries) :
    bytes responseBytes (entries.filter fun e => e.1 ≠ key) +
      entrySize responseBytes entry = bytes responseBytes entries := by
  induction entries with
  | nil => cases hmem
  | cons first entries ih =>
    rw [map_cons, nodup_cons] at hnodup
    obtain rfl | hmem := mem_cons.mp hmem
    · rw [filter_cons_of_neg (by simp), filter_key_of_not_mem hnodup.1]
      simp [bytes, Nat.add_comm]
    · have hne : first.1 ≠ key := by
        rintro rfl
        exact hnodup.1 (mem_map.mpr ⟨_, hmem, rfl⟩)
      rw [filter_cons_of_pos (by simpa using hne)]
      have hrest := ih hnodup.2 hmem
      simp only [bytes, map_cons, sum_cons] at hrest ⊢
      omega

namespace Inner

theorem entries_remove (inner : Inner) (key : String) :
    (inner.remove key).entries = inner.entries.filter fun e => e.1 ≠ key := by
  rw [entries, entries, order_remove, live_remove (inner.get_remove key), filter_map]
  rfl

theorem Valid.remove (h : inner.Valid responseBytes) (key : String) :
    (inner.remove key).Valid responseBytes where
  sorted := by
    unfold Inner.remove
    split
    · exact h.sorted.erase key
    · exact h.sorted
  tracks := by
    rw [order_remove, nextGeneration_remove]
    exact h.tracks.remove (inner.get_remove key)
  sized key' stored hget := by
    rw [get_remove] at hget
    split at hget
    · cases hget
    · exact h.sized key' stored hget
  total := by
    rw [entries_remove]
    unfold Inner.remove
    cases hget : SortedMap.get inner.map key with
    | none =>
      rw [filter_key_of_not_mem]
      · exact h.total
      · rw [mem_map]
        rintro ⟨⟨_, entry⟩, hmem, rfl⟩
        obtain ⟨stored, hstored, -⟩ := h.mem_entries.mp hmem
        exact Option.some_ne_none _ (hstored.symm.trans hget)
    | some stored =>
      have hsum := bytes_filter_key responseBytes h.nodup_keys
        (h.mem_entries.mpr ⟨stored, hget, rfl⟩)
      show inner.totalBytes - stored.size = _
      rw [h.total, h.sized key stored hget]
      omega

theorem isLive_iff {node : Nat × String} :
    inner.isLive node = true ↔
      ∃ stored, SortedMap.get inner.map node.2 = some stored ∧ stored.generation = node.1 :=
  LazyQueue.isLive_iff

variable {order : List (Nat × String)}

theorem Valid.dropStale {node : Nat × String}
    (h : ({ inner with order := node :: order } : Inner).Valid responseBytes)
    (hstale : ¬ inner.isLive node) :
    ({ inner with order } : Inner).Valid responseBytes ∧
      ({ inner with order } : Inner).entries =
        ({ inner with order := node :: order } : Inner).entries := by
  have hentries : ({ inner with order } : Inner).entries =
      ({ inner with order := node :: order } : Inner).entries :=
    congrArg (List.map _) (live_cons_of_stale hstale).symm
  exact ⟨⟨h.sorted, h.tracks.tail hstale, h.sized, hentries ▸ h.total⟩, hentries⟩

variable {rest : List (String × CacheEntry)} {first : String × CacheEntry}

/-- Eviction takes the oldest entry, skipping stale nodes. -/
theorem popOldest_spec (h : ({ inner with order } : Inner).Valid responseBytes)
    (hentries : ({ inner with order } : Inner).entries = first :: rest) :
    (inner.popOldest order).2 = true ∧ (inner.popOldest order).1.Valid responseBytes ∧
      (inner.popOldest order).1.entries = rest := by
  induction order with
  | nil => cases hentries
  | cons node order ih =>
    by_cases hlive : inner.isLive node
    · rw [popOldest, if_pos hlive]
      refine ⟨rfl, ?_⟩
      obtain ⟨stored, hget, hgeneration⟩ := isLive_iff.mp hlive
      -- removing the key makes its node stale, and the stale node goes with it
      have hremoved : ({ inner with order := node :: order } : Inner).remove node.2 =
          { ({ inner with order } : Inner).remove node.2 with order := node :: order } := by
        simp only [remove, hget]
      have hstale : ¬ (({ inner with order } : Inner).remove node.2).isLive node := by
        rw [isLive_iff, get_remove]
        simp
      obtain ⟨hvalid, hsame⟩ := (hremoved ▸ h.remove node.2).dropStale hstale
      have horder : { ({ inner with order } : Inner).remove node.2 with order } =
          ({ inner with order } : Inner).remove node.2 := by
        simp only [remove, hget]
      rw [horder] at hvalid hsame
      refine ⟨hvalid, ?_⟩
      have hfirst : ({ inner with order := node :: order } : Inner).entries =
          (node.2, stored.entry) :: ({ inner with order } : Inner).entries :=
        congrArg (List.map _) (live_cons_of_live hget hgeneration)
      obtain ⟨rfl, rfl⟩ := List.cons.inj (hfirst.symm.trans hentries)
      have hnodup := h.nodup_keys
      rw [hentries, map_cons, nodup_cons] at hnodup
      rw [hsame, ← hremoved, entries_remove, hentries, filter_cons_of_neg (by simp),
        filter_key_of_not_mem hnodup.1]
    · obtain ⟨hvalid, hsame⟩ := h.dropStale hlive
      rw [popOldest, if_neg hlive]
      exact ih hvalid (hsame.trans hentries)

section

variable (h : inner.Valid responseBytes)
include h

theorem Valid.evictOldest (hentries : inner.entries = first :: rest) :
    inner.evictOldest.2 = true ∧ inner.evictOldest.1.Valid responseBytes ∧
      inner.evictOldest.1.entries = rest :=
  popOldest_spec h hentries

theorem Valid.isEmpty_map : inner.map.isEmpty ↔ inner.entries = [] := by
  rw [List.isEmpty_iff]
  constructor
  · intro hmap
    refine eq_nil_iff_forall_not_mem.mpr fun entry hmem => ?_
    obtain ⟨stored, hget, -⟩ := h.mem_entries.mp hmem
    rw [hmap] at hget
    cases hget
  · intro hentries
    refine eq_nil_iff_forall_not_mem.mpr fun entry hmem => ?_
    have hmem' := h.mem_entries.mpr ⟨entry.2, h.sorted.get_of_mem hmem, rfl⟩
    rw [hentries] at hmem'
    cases hmem'

/-- Making room drops the same entries as the list does, and afterwards the new entry fits. -/
theorem Valid.makeRoom {maxBytes size : Nat} (hsize : size ≤ maxBytes) :
    (inner.makeRoom maxBytes size).Valid responseBytes ∧
      (inner.makeRoom maxBytes size).entries =
        evictFront responseBytes maxBytes size inner.entries ∧
      (inner.makeRoom maxBytes size).totalBytes + size ≤ maxBytes := by
  generalize hentries : inner.entries = entries
  induction entries generalizing inner with
  | nil =>
    have hempty := h.isEmpty_map.mpr hentries
    have htotal := h.total
    rw [hentries] at htotal
    rw [Inner.makeRoom, if_neg (fun hcond => hcond.1 hempty)]
    refine ⟨h, hentries, ?_⟩
    rw [htotal]
    simpa [bytes] using hsize
  | cons first rest ih =>
    have hempty : ¬ inner.map.isEmpty := by
      rw [h.isEmpty_map, hentries]
      exact cons_ne_nil _ _
    have htotal := h.total
    rw [hentries] at htotal
    obtain ⟨hpopped, hvalid, hrest⟩ := h.evictOldest hentries
    rw [Inner.makeRoom, evictFront, ← htotal]
    by_cases hfull : inner.totalBytes + size > maxBytes
    · rw [if_pos ⟨hempty, hfull⟩, dif_pos hpopped, if_pos hfull]
      exact ih hvalid hrest
    · rw [if_neg (fun hcond => hfull hcond.2), if_neg hfull]
      exact ⟨h, hentries, Nat.le_of_not_lt hfull⟩

end

theorem Valid.insertNew (h : inner.Valid responseBytes)
    (hkey : SortedMap.get inner.map key = none) (entry : CacheEntry) :
    (inner.insertNew key entry (entrySize responseBytes entry)).Valid responseBytes ∧
      (inner.insertNew key entry (entrySize responseBytes entry)).entries =
        inner.entries ++ [(key, entry)] := by
  obtain ⟨hlive, htracks⟩ := h.tracks.live_push hkey rfl
    (get_insert inner.map key
      { entry, size := entrySize responseBytes entry, generation := inner.nextGeneration })
  have hentries : (inner.insertNew key entry (entrySize responseBytes entry)).entries =
      inner.entries ++ [(key, entry)] := by
    refine (congrArg (List.map _) hlive).trans ?_
    rw [map_append]
    rfl
  refine ⟨⟨h.sorted.insert _ _, htracks, fun key' stored hget => ?_, ?_⟩, hentries⟩
  · rw [Inner.insertNew, get_insert] at hget
    split at hget
    · cases hget
      rfl
    · exact h.sized key' stored hget
  · rw [hentries, Inner.insertNew, h.total]
    simp [bytes]

/-- Compaction never changes the contents. -/
theorem entries_compact (inner : Inner) : inner.compact.entries = inner.entries :=
  congrArg (List.map _) (live_filter_isLive _ _ _)

theorem Valid.compact (h : inner.Valid responseBytes) : inner.compact.Valid responseBytes :=
  { h with
    tracks := h.tracks.filter_isLive
    total := h.total.trans (congrArg _ inner.entries_compact.symm) }

theorem totalBytes_compactIfLong (inner : Inner) :
    inner.compactIfLong.totalBytes = inner.totalBytes := by
  unfold compactIfLong
  split <;> rfl

theorem Valid.compactIfLong (h : inner.Valid responseBytes) :
    inner.compactIfLong.Valid responseBytes ∧ inner.compactIfLong.entries = inner.entries := by
  unfold Inner.compactIfLong
  split
  · exact ⟨h.compact, inner.entries_compact⟩
  · exact ⟨h, rfl⟩

end Inner

theorem evictFront_suffix (maxBytes size : Nat) (entries : List (String × CacheEntry)) :
    evictFront responseBytes maxBytes size entries <:+ entries := by
  induction entries with
  | nil => exact suffix_rfl
  | cons entry entries ih =>
    rw [evictFront]
    split
    · exact ih.trans (suffix_cons _ _)
    · exact suffix_rfl

/-- The store holds the entries of the list, within the byte limit. -/
structure Refines (responseBytes : Json → Nat) (limit : Nat) (store : InMemoryCacheStore)
    (reference : ReferenceStore) : Prop where
  valid : store.inner.Valid responseBytes
  entries : store.inner.entries = reference.entries
  storeLimit : store.maxBytes = limit
  referenceLimit : reference.maxBytes = limit
  within : store.inner.totalBytes ≤ limit

variable {limit : Nat} {store : InMemoryCacheStore} {reference : ReferenceStore}

section

variable (h : Refines responseBytes limit store reference)
include h

variable (key : String)

theorem Refines.remove :
    Refines responseBytes limit { store with inner := store.inner.remove key }
      (reference.drop key) where
  valid := h.valid.remove key
  entries := by rw [Inner.entries_remove, h.entries, drop]
  storeLimit := h.storeLimit
  referenceLimit := h.referenceLimit
  within := by
    refine le_trans ?_ h.within
    show (store.inner.remove key).totalBytes ≤ store.inner.totalBytes
    unfold Inner.remove
    split
    · exact Nat.sub_le _ _
    · exact le_refl _

theorem Refines.find? :
    reference.entries.find? (fun entry => entry.1 = key) =
      (SortedMap.get store.inner.map key).map fun stored => (key, stored.entry) := by
  rw [← h.entries]
  cases hget : SortedMap.get store.inner.map key with
  | none =>
    refine find?_eq_none.mpr ?_
    rintro ⟨_, entry⟩ hmem hkey
    obtain ⟨stored, hstored, -⟩ := h.valid.mem_entries.mp hmem
    obtain rfl := of_decide_eq_true hkey
    exact Option.some_ne_none _ (hstored.symm.trans hget)
  | some stored =>
    exact find?_key_of_mem h.valid.nodup_keys (h.valid.mem_entries.mpr ⟨stored, hget, rfl⟩)

theorem Refines.get (now : Nat) :
    (store.get key now).1 = (reference.get key now).1 ∧
      Refines responseBytes limit (store.get key now).2 (reference.get key now).2 := by
  rw [InMemoryCacheStore.get, ReferenceStore.get, h.find? key]
  cases SortedMap.get store.inner.map key with
  | none => exact ⟨rfl, h⟩
  | some stored =>
    by_cases hexpired : stored.entry.isExpired now
    · simp only [hexpired, Option.map_some, not_true, if_true, if_false]
      exact ⟨trivial, h.remove key⟩
    · simp only [hexpired, Option.map_some]
      exact ⟨rfl, h⟩

theorem Refines.set (entry : CacheEntry) (ttl : Nat) :
    Refines responseBytes limit (store.set responseBytes key entry ttl)
      (reference.set responseBytes key entry) := by
  have hdropped := h.remove key
  simp only [InMemoryCacheStore.set, ReferenceStore.set, h.storeLimit, h.referenceLimit]
  by_cases hlarge : entrySize responseBytes entry > limit
  · rw [if_pos hlarge, if_pos hlarge]
    exact { hdropped with storeLimit := rfl }
  rw [if_neg hlarge, if_neg hlarge]
  obtain ⟨hroom, hkept, hfits⟩ := hdropped.valid.makeRoom (Nat.le_of_not_lt hlarge)
  have hkey : SortedMap.get ((store.inner.remove key).makeRoom limit
      (entrySize responseBytes entry)).map key = none := by
    refine Option.eq_none_iff_forall_ne_some.mpr fun stored hget => ?_
    have hmem := hroom.mem_entries.mpr ⟨stored, hget, rfl⟩
    rw [hkept] at hmem
    have hmem' := (evictFront_suffix _ _ _).subset hmem
    rw [Inner.entries_remove] at hmem'
    simp at hmem'
  obtain ⟨hinserted, hentries⟩ := hroom.insertNew hkey entry
  obtain ⟨hvalid, hsame⟩ := hinserted.compactIfLong
  refine ⟨hvalid, ?_, rfl, rfl, ?_⟩
  · rw [hsame, hentries, hkept, hdropped.entries]
  · show (Inner.compactIfLong _).totalBytes ≤ limit
    rw [Inner.totalBytes_compactIfLong]
    exact hfits

end

theorem simulates : (storeMachine responseBytes).Simulates (referenceMachine responseBytes)
    (Refines responseBytes limit) := by
  intro store reference call h
  cases call with
  | get key now =>
    obtain ⟨hfound, h'⟩ := h.get key now
    exact ⟨congrArg Reply.found hfound, h'⟩
  | set key entry ttl => exact ⟨rfl, h.set key entry ttl⟩

theorem refines_new (responseBytes : Json → Nat) (maxBytes : Nat) :
    Refines responseBytes (max maxBytes 1) (.new maxBytes)
      { entries := [], maxBytes := max maxBytes 1 } where
  valid := {
    sorted := List.Pairwise.nil
    tracks := ⟨List.Pairwise.nil, nofun, nofun⟩
    sized := nofun
    total := rfl }
  entries := rfl
  storeLimit := rfl
  referenceLimit := rfl
  within := Nat.zero_le _

theorem Refines.compact (h : Refines responseBytes limit store reference) :
    Refines responseBytes limit { store with inner := store.inner.compact } reference :=
  { h with
    valid := h.valid.compact
    entries := (Inner.entries_compact _).trans h.entries }

/-- The recorded total is the sum of the sizes in the map. -/
theorem Inner.Valid.total_map (h : inner.Valid responseBytes) :
    inner.totalBytes = (inner.map.map fun node => node.2.size).sum := by
  have hperm : inner.map.Perm
      (live StoredEntry.generation (SortedMap.get inner.map) inner.order) := by
    refine (perm_ext_iff_of_nodup h.sorted.nodup h.tracks.nodup_keys.of_map).mpr fun node => ?_
    rw [h.tracks.mem_live]
    exact ⟨h.sorted.get_of_mem, mem_of_get⟩
  rw [h.total, Inner.entries, bytes, map_map, (hperm.map _).sum_nat]
  refine congrArg List.sum (map_congr_left fun node hmem => ?_)
  exact (h.sized _ _ (h.tracks.mem_live.mp hmem)).symm

/-- The store answers every sequence of calls as the list does. In every state it reaches, the
recorded total is the sum of the sizes of its entries and within the limit, and dropping the
stale order nodes changes no later answer. -/
theorem store_refines_reference (responseBytes : Json → Nat) (maxBytes : Nat) (calls : List Call) :
    let final := ((storeMachine responseBytes).run (.new maxBytes) calls).2
    let reference := (referenceMachine responseBytes).run
      { entries := [], maxBytes := max maxBytes 1 } calls
    ((storeMachine responseBytes).run (.new maxBytes) calls).1 = reference.1 ∧
      final.totalBytes = (final.inner.map.map fun node => node.2.size).sum ∧
      final.totalBytes = bytes responseBytes reference.2.entries ∧
      final.totalBytes ≤ max maxBytes 1 ∧
      ∀ later, ((storeMachine responseBytes).run
          { final with inner := final.inner.compact } later).1 =
        ((storeMachine responseBytes).run final later).1 := by
  intro final reference
  obtain ⟨hreplies, hrefines⟩ := simulates.run (refines_new responseBytes maxBytes) calls
  refine ⟨hreplies, hrefines.valid.total_map, ?_, hrefines.within, fun later => ?_⟩
  · rw [← hrefines.entries]
    exact hrefines.valid.total
  · rw [(simulates.run hrefines.compact later).1, (simulates.run hrefines later).1]

end Refinement

end NemoRelay.ResponseCache
