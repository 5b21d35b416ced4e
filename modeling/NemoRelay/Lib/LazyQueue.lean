import Mathlib.Data.List.Nodup
import Mathlib.Data.List.Perm.Basic

/-!
# Queues with lazy deletion

A map is kept together with a queue of its keys in the order of their insertion. Removing a key
from the map leaves its node in the queue: a node counts only while the map holds its key with
the stamp of the node. The entries of the live nodes are the contents in insertion order, and
stale nodes may be dropped at any time.
-/

namespace LazyQueue

open List

variable {κ ν : Type*} {stamp : ν → ℕ} {lookup lookup' : κ → Option ν}
  {order : List (ℕ × κ)} {next : ℕ} {k : κ} {v : ν}

/-- The map holds the key of the node with the stamp of the node. -/
def isLive (stamp : ν → ℕ) (lookup : κ → Option ν) (node : ℕ × κ) : Bool :=
  (lookup node.2).any fun v => stamp v = node.1

/-- The entries of the live nodes, oldest first. -/
def live (stamp : ν → ℕ) (lookup : κ → Option ν) (order : List (ℕ × κ)) : List (κ × ν) :=
  order.filterMap fun node =>
    ((lookup node.2).filter fun v => stamp v = node.1).map fun v => (node.2, v)

/-- Stamps increase along the queue and stay below the next one, and every entry of the map has
its node. -/
structure Tracks (stamp : ν → ℕ) (lookup : κ → Option ν) (order : List (ℕ × κ)) (next : ℕ) :
    Prop where
  increasing : order.Pairwise fun a b => a.1 < b.1
  fresh : ∀ node ∈ order, node.1 < next
  complete : ∀ k v, lookup k = some v → (stamp v, k) ∈ order

/-! ### Contents -/

variable {node : ℕ × κ}

theorem isLive_iff :
    isLive stamp lookup node = true ↔ ∃ v, lookup node.2 = some v ∧ stamp v = node.1 := by
  simp [isLive, Option.any_eq_true]

theorem live_cons_of_live (h : lookup node.2 = some v) (hstamp : stamp v = node.1) :
    live stamp lookup (node :: order) = (node.2, v) :: live stamp lookup order := by
  simp [live, h, hstamp]

theorem live_cons_of_stale (h : ¬ isLive stamp lookup node) :
    live stamp lookup (node :: order) = live stamp lookup order := by
  refine filterMap_cons_none ?_
  rw [Option.map_eq_none_iff, Option.filter_eq_none_iff]
  intro v hv hstamp
  exact h (isLive_iff.mpr ⟨v, hv, by simpa using hstamp⟩)

theorem mem_live : (k, v) ∈ live stamp lookup order ↔ lookup k = some v ∧ (stamp v, k) ∈ order := by
  simp only [live, mem_filterMap, Option.map_eq_some_iff, Option.filter_eq_some_iff,
    decide_eq_true_eq, Prod.mk.injEq]
  constructor
  · rintro ⟨⟨generation, _⟩, hnode, _, ⟨hlookup, rfl⟩, rfl, rfl⟩
    exact ⟨hlookup, hnode⟩
  · rintro ⟨hlookup, hnode⟩
    exact ⟨_, hnode, v, ⟨hlookup, rfl⟩, rfl, rfl⟩

/-- The live nodes list the map. -/
theorem Tracks.mem_live (h : Tracks stamp lookup order next) :
    (k, v) ∈ live stamp lookup order ↔ lookup k = some v := by
  rw [LazyQueue.mem_live, and_iff_left_of_imp (h.complete k v)]

theorem Tracks.tail (h : Tracks stamp lookup (node :: order) next)
    (hstale : ¬ isLive stamp lookup node) : Tracks stamp lookup order next where
  increasing := h.increasing.tail
  fresh _ hmem := h.fresh _ (mem_cons_of_mem _ hmem)
  complete k v hlookup := by
    obtain heq | hmem := mem_cons.mp (h.complete k v hlookup)
    · exact absurd (isLive_iff.mpr ⟨v, by rw [← heq]; exact ⟨hlookup, rfl⟩⟩) hstale
    · exact hmem

/-- No key is live twice: both nodes would carry the stamp of its entry. -/
theorem nodup_keys (hinc : order.Pairwise fun a b => a.1 < b.1) :
    ((live stamp lookup order).map Prod.fst).Nodup := by
  induction order with
  | nil => exact nodup_nil
  | cons node order ih =>
    rw [pairwise_cons] at hinc
    by_cases hlive : isLive stamp lookup node
    · obtain ⟨v, hlookup, hstamp⟩ := isLive_iff.mp hlive
      rw [live_cons_of_live hlookup hstamp, map_cons, nodup_cons]
      refine ⟨fun hmem => ?_, ih hinc.2⟩
      obtain ⟨⟨_, w⟩, hw, rfl⟩ := mem_map.mp hmem
      obtain ⟨hlookup', hnode⟩ := LazyQueue.mem_live.mp hw
      obtain rfl : v = w := by simpa [hlookup] using hlookup'
      exact absurd hstamp (Nat.ne_of_gt (hinc.1 _ hnode))
    · rw [live_cons_of_stale hlive]
      exact ih hinc.2

theorem Tracks.nodup_keys (h : Tracks stamp lookup order next) :
    ((live stamp lookup order).map Prod.fst).Nodup :=
  LazyQueue.nodup_keys h.increasing

/-! ### Operations -/

section Operations

variable [DecidableEq κ] {entries : List (κ × ν)}

theorem filter_key_of_not_mem (h : k ∉ entries.map Prod.fst) :
    (entries.filter fun entry => entry.1 ≠ k) = entries := by
  rw [filter_eq_self]
  intro entry hmem
  have hne : entry.1 ≠ k := fun hkey => h (mem_map.mpr ⟨entry, hmem, hkey⟩)
  simpa using hne

theorem find?_key_of_mem (hnodup : (entries.map Prod.fst).Nodup)
    (hmem : (k, v) ∈ entries) : entries.find? (fun entry => entry.1 = k) = some (k, v) := by
  induction entries with
  | nil => cases hmem
  | cons entry entries ih =>
    rw [map_cons, nodup_cons] at hnodup
    obtain rfl | hmem := mem_cons.mp hmem
    · exact find?_cons_of_pos (decide_eq_true rfl)
    · have hne : entry.1 ≠ k := by
        rintro rfl
        exact hnodup.1 (mem_map.mpr ⟨_, hmem, rfl⟩)
      rw [find?_cons_of_neg (by simpa using hne)]
      exact ih hnodup.2 hmem

/-- Removing a key from the map removes its entry from the contents. -/
theorem live_remove (hlookup : ∀ k', lookup' k' = if k' = k then none else lookup k')
    (order : List (ℕ × κ)) :
    live stamp lookup' order = (live stamp lookup order).filter fun entry => entry.1 ≠ k := by
  rw [live, live, filter_filterMap]
  congr 1
  funext node
  by_cases hkey : node.2 = k
  · rw [hlookup]
    cases (lookup node.2).filter fun v => stamp v = node.1 <;> simp [hkey, Option.filter]
  · rw [hlookup, if_neg hkey]
    cases (lookup node.2).filter fun v => stamp v = node.1 <;> simp [hkey, Option.filter]

theorem Tracks.remove (h : Tracks stamp lookup order next)
    (hlookup : ∀ k', lookup' k' = if k' = k then none else lookup k') :
    Tracks stamp lookup' order next where
  increasing := h.increasing
  fresh := h.fresh
  complete k' v hv := by
    rw [hlookup] at hv
    split at hv
    · cases hv
    · exact h.complete k' v hv

/-- A new key goes to the back of the contents. -/
theorem Tracks.live_push (h : Tracks stamp lookup order next) (hkey : lookup k = none)
    (hstamp : stamp v = next) (hlookup : ∀ k', lookup' k' = if k' = k then some v else lookup k') :
    live stamp lookup' (order ++ [(next, k)]) = live stamp lookup order ++ [(k, v)] ∧
      Tracks stamp lookup' (order ++ [(next, k)]) (next + 1) := by
  constructor
  · have hold : live stamp lookup' order = live stamp lookup order := by
      refine filterMap_congr fun node hnode => ?_
      by_cases hnodeKey : node.2 = k
      · have hlt := h.fresh node hnode
        have hne : stamp v ≠ node.1 := by omega
        simp [hlookup, hnodeKey, hkey, hne]
      · rw [hlookup, if_neg hnodeKey]
    have hnew : live stamp lookup' [(next, k)] = [(k, v)] :=
      live_cons_of_live (by rw [hlookup, if_pos rfl]) hstamp
    rw [← hold, ← hnew, live, filterMap_append]
    rfl
  · constructor
    · rw [pairwise_append]
      exact ⟨h.increasing, pairwise_singleton _ _, by simpa using h.fresh⟩
    · simp only [mem_append, mem_singleton]
      rintro node (hnode | rfl)
      · exact Nat.lt_succ_of_lt (h.fresh node hnode)
      · exact next.lt_succ_self
    · intro k' v' hv'
      rw [hlookup] at hv'
      split at hv'
      · rename_i hk
        cases hv'
        rw [hk, hstamp]
        exact mem_append_right _ (mem_singleton_self _)
      · exact mem_append_left _ (h.complete k' v' hv')

end Operations

/-- Dropping the stale nodes keeps the contents. -/
theorem live_filter_isLive (stamp : ν → ℕ) (lookup : κ → Option ν) (order : List (ℕ × κ)) :
    live stamp lookup (order.filter (isLive stamp lookup)) = live stamp lookup order := by
  induction order with
  | nil => rfl
  | cons node order ih =>
    by_cases hlive : isLive stamp lookup node
    · obtain ⟨v, hlookup, hstamp⟩ := isLive_iff.mp hlive
      rw [filter_cons_of_pos hlive, live_cons_of_live hlookup hstamp, ih,
        live_cons_of_live hlookup hstamp]
    · rw [filter_cons_of_neg hlive, live_cons_of_stale hlive, ih]

theorem Tracks.filter_isLive (h : Tracks stamp lookup order next) :
    Tracks stamp lookup (order.filter (isLive stamp lookup)) next where
  increasing := h.increasing.filter _
  fresh _ hmem := h.fresh _ (mem_of_mem_filter hmem)
  complete k v hv :=
    mem_filter.mpr ⟨h.complete k v hv, isLive_iff.mpr ⟨v, hv, rfl⟩⟩

end LazyQueue
