import Mathlib.Data.List.Sort
import Mathlib.Data.Prod.Lex

/-!
# Stable sorting by a key

`sortByKey` sorts a list by a key with values in a linear order. Elements with the same key keep
their order, so that what held between two such elements before sorting still holds afterwards.
-/

namespace StableSort

open List

section Pairs

variable {α : Type*} {l : List α} {a b : α}

/-- Two different members stand in one of the two orders. -/
theorem pair_sublist_or_of_mem (ha : a ∈ l) (hb : b ∈ l) (hne : a ≠ b) :
    [a, b].Sublist l ∨ [b, a].Sublist l := by
  induction l with
  | nil => cases ha
  | cons c l ih =>
    obtain rfl | ha' := mem_cons.mp ha
    · have hb' : b ∈ l := (mem_cons.mp hb).resolve_left hne.symm
      exact .inl ((singleton_sublist.mpr hb').cons_cons a)
    obtain rfl | hb' := mem_cons.mp hb
    · exact .inr ((singleton_sublist.mpr ha').cons_cons b)
    exact (ih ha' hb').imp (List.Sublist.cons c) (List.Sublist.cons c)

/-- Without duplicates they stand in only one. -/
theorem not_pair_sublist_swap (hnodup : l.Nodup) (h : [a, b].Sublist l) : ¬ [b, a].Sublist l := by
  induction l with
  | nil => cases h
  | cons c l ih =>
    rw [nodup_cons] at hnodup
    intro hswap
    cases h with
    | cons _ h =>
      cases hswap with
      | cons _ hswap => exact ih hnodup.2 h hswap
      | cons_cons _ hswap => exact hnodup.1 (h.subset (by simp))
    | cons_cons _ h =>
      cases hswap with
      | cons _ hswap => exact hnodup.1 (hswap.subset (by simp))
      | cons_cons _ hswap => exact hnodup.1 (h.subset (by simp))

end Pairs

variable {α β κ : Type*} [LinearOrder κ] (key : α → κ)

/-- Stable sort, smallest keys first. -/
def sortByKey (l : List α) : List α := l.mergeSort fun a b => decide (key a ≤ key b)

theorem lt_of_getElem? {key : α → κ} {l : List α} (h : l.Pairwise fun a b => key a < key b)
    {i j : Nat} (hij : i < j) {a b : α} (ha : l[i]? = some a) (hb : l[j]? = some b) :
    key a < key b := by
  obtain ⟨hi, rfl⟩ := List.getElem?_eq_some_iff.mp ha
  obtain ⟨hj, rfl⟩ := List.getElem?_eq_some_iff.mp hb
  exact pairwise_iff_getElem.mp h i j hi hj hij

theorem le_trans_decide (a b c : α) (hab : decide (key a ≤ key b) = true)
    (hbc : decide (key b ≤ key c) = true) : decide (key a ≤ key c) = true := by
  rw [decide_eq_true_eq] at hab hbc ⊢
  exact hab.trans hbc

theorem le_total_decide (a b : α) : (decide (key a ≤ key b) || decide (key b ≤ key a)) = true := by
  rw [Bool.or_eq_true, decide_eq_true_eq, decide_eq_true_eq]
  exact le_total _ _

theorem sortByKey_perm (l : List α) : (sortByKey key l).Perm l := mergeSort_perm _ _

@[simp] theorem sortByKey_singleton (a : α) : sortByKey key [a] = [a] := mergeSort_singleton a

variable {l : List α}

@[simp] theorem mem_sortByKey {a : α} : a ∈ sortByKey key l ↔ a ∈ l :=
  (sortByKey_perm key l).mem_iff

theorem pairwise_sortByKey (l : List α) : (sortByKey key l).Pairwise fun a b => key a ≤ key b := by
  have h := pairwise_mergeSort (le_trans_decide key) (le_total_decide key) l
  exact h.imp fun hab => of_decide_eq_true hab

/-- Two elements in the order of their keys keep their order. -/
theorem pair_sublist_sortByKey {a b : α} (hab : key a ≤ key b)
    (h : [a, b].Sublist l) : [a, b].Sublist (sortByKey key l) :=
  pair_sublist_mergeSort (le_trans_decide key) (le_total_decide key) (decide_eq_true hab) h

/-- **Stability**: a relation between the elements with the same key survives sorting. -/
theorem pairwise_sortByKey_stable {R : α → α → Prop} (hnodup : l.Nodup)
    (hR : l.Pairwise fun a b => key a = key b → R a b) :
    (sortByKey key l).Pairwise fun a b => key a < key b ∨ key a = key b ∧ R a b := by
  have hsorted : (sortByKey key l).Nodup := (sortByKey_perm key l).nodup_iff.mpr hnodup
  rw [pairwise_iff_forall_sublist] at hR ⊢
  intro a b hab
  have hle : key a ≤ key b :=
    pairwise_iff_forall_sublist.mp (pairwise_sortByKey key l) hab
  obtain hlt | heq := hle.lt_or_eq
  · exact .inl hlt
  refine .inr ⟨heq, ?_⟩
  have hne : a ≠ b := by
    rintro rfl
    exact nodup_iff_sublist.mp hsorted a hab
  -- The two stood in one of the two orders before, and the other order would have survived.
  have ha : a ∈ l := (mem_sortByKey key).mp (hab.subset (by simp))
  have hb : b ∈ l := (mem_sortByKey key).mp (hab.subset (by simp))
  obtain hord | hord := pair_sublist_or_of_mem ha hb hne
  · exact hR hord heq
  · have hback := pair_sublist_sortByKey key heq.ge hord
    exact absurd hback (not_pair_sublist_swap hsorted hab)

/-- Sorting without ties. -/
theorem pairwise_sortByKey_lt (hnodup : (l.map key).Nodup) :
    (sortByKey key l).Pairwise fun a b => key a < key b := by
  have hne : ((sortByKey key l).map key).Nodup :=
    ((sortByKey_perm key l).map key).nodup_iff.mpr hnodup
  rw [List.Nodup, pairwise_map] at hne
  exact ((pairwise_sortByKey key l).and hne).imp fun h => lt_of_le_of_ne h.1 h.2

/-- Sorting commutes with a map that keeps the key. -/
theorem map_sortByKey (keyβ : β → κ) {f : α → β} (hf : ∀ a, keyβ (f a) = key a) (l : List α) :
    (sortByKey key l).map f = sortByKey keyβ (l.map f) := by
  apply map_mergeSort
  intro a _ b _
  rw [hf, hf]

/-- A strictly sorted list is determined by its members. -/
theorem eq_of_pairwise_lt {l₁ l₂ : List α} (h₁ : l₁.Pairwise fun a b => key a < key b)
    (h₂ : l₂.Pairwise fun a b => key a < key b) (hmem : ∀ a, a ∈ l₁ ↔ a ∈ l₂) : l₁ = l₂ := by
  have hnodup : ∀ l : List α, (l.Pairwise fun a b => key a < key b) → l.Nodup := by
    intro l hl
    refine hl.imp ?_
    rintro a b hab rfl
    exact lt_irrefl _ hab
  have hperm := (perm_ext_iff_of_nodup (hnodup l₁ h₁) (hnodup l₂ h₂)).mpr hmem
  refine hperm.eq_of_pairwise ?_ h₁ h₂
  intro a b _ _ hab hba
  exact absurd hba hab.not_gt

end StableSort
