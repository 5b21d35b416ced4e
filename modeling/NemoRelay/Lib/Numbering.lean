import Mathlib.Data.List.Forall2

/-!
# Numbered members of a list

Some members of a list carry the numbers 0, 1, 2, … in this order. The number of such a member is
the number of those before it, so that counting recovers it.
-/

namespace Numbering

open List

variable {α : Type*} {f : α → Option Nat} {l : List α} {n i k : Nat} {a : α}

theorem filterMap_take (hl : l.filterMap f = List.range n) (hi : l[i]? = some a)
    (ha : f a = some k) : (l.take i).filterMap f = List.range k := by
  obtain ⟨hlt, rfl⟩ := List.getElem?_eq_some_iff.mp hi
  have hsplit : (l.take i).filterMap f ++ k :: (l.drop (i + 1)).filterMap f = List.range n := by
    rw [← hl]
    conv_rhs => rw [← take_append_drop i l, filterMap_append,
      drop_eq_getElem_cons hlt, filterMap_cons_some ha]
  have hlength := congrArg List.length hsplit
  rw [length_append, length_cons, length_range] at hlength
  have hk : k = ((l.take i).filterMap f).length := by
    have hat := congrArg (·[((l.take i).filterMap f).length]?) hsplit
    simp only [getElem?_append_right (Nat.le_refl _), Nat.sub_self] at hat
    rw [getElem?_range (by omega)] at hat
    exact Option.some_inj.mp hat
  have htake := congrArg (List.take ((l.take i).filterMap f).length) hsplit
  rw [take_left, take_range] at htake
  rw [htake]
  congr 1
  omega

theorem countP_take (hl : l.filterMap f = List.range n) (hi : l[i]? = some a) (ha : f a = some k)
    {p : α → Bool} {q : Nat → Bool} (hp : ∀ b ∈ l, p b = (f b).any q) :
    (l.take i).countP p = (List.range k).countP q := by
  rw [← filterMap_take hl hi ha, countP_filterMap]
  refine countP_congr fun b hb => ?_
  rw [hp b (mem_of_mem_take hb)]
  cases f b <;> simp

theorem countP_take_succ {p : α → Bool} (hi : l[i]? = some a) (ha : p a = true) :
    (l.take (i + 1)).countP p - 1 = (l.take i).countP p := by
  rw [take_add_one, hi]
  simp [ha]

theorem exists_getElem?_of_forall₂ {β : Type*} {R : α → β → Prop} {results : List β}
    (h : List.Forall₂ R l results) (hi : l[i]? = some a) : ∃ b, results[i]? = some b ∧ R a b := by
  obtain ⟨hlt, rfl⟩ := List.getElem?_eq_some_iff.mp hi
  obtain ⟨hlength, hget⟩ := forall₂_iff_get.mp h
  exact ⟨results[i], getElem?_eq_getElem (hlength ▸ hlt), hget i hlt (hlength ▸ hlt)⟩

/-- Results of numbered items, as results of the numbers. -/
theorem forall₂_range {β γ : Type*} {R : α → β → Prop} {S : γ → β → Prop} (mk : Nat → γ)
    {items : List α} {results : List β} (h : List.Forall₂ R items results) (start : Nat)
    (hmk : ∀ k a b, items[k]? = some a → R a b → S (mk (start + k)) b) :
    List.Forall₂ S ((List.range' start items.length).map mk) results := by
  induction h generalizing start with
  | nil => exact .nil
  | cons hhead _ ih =>
    refine .cons (hmk 0 _ _ rfl hhead) (ih (start + 1) fun k a b hk hR => ?_)
    rw [Nat.add_assoc, Nat.add_comm 1 k]
    exact hmk (k + 1) a b hk hR

end Numbering
