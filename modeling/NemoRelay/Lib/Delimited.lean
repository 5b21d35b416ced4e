import Mathlib.Data.List.Infix

/-!
# Texts that can be told from what follows them

In a set of delimited texts none is the beginning of another. Delimited texts can be written one
after another, or joined with a separator, without losing anything.
-/

namespace Coding

open List

variable {α : Type*}

/-- What is written after one of the texts does not matter for telling it from the others. -/
def Delimited (texts : Set (List α)) : Prop :=
  ∀ x ∈ texts, ∀ y ∈ texts, ∀ rest rest', x ++ rest = y ++ rest' → x = y

theorem Delimited.append_inj {texts : Set (List α)} (htexts : Delimited texts) {x y : List α}
    {rest rest' : List α} (hx : x ∈ texts) (hy : y ∈ texts) (h : x ++ rest = y ++ rest') :
    x = y ∧ rest = rest' := by
  obtain rfl := htexts x hx y hy rest rest' h
  exact ⟨rfl, append_cancel_left h⟩

/-! ### Separators -/

theorem intercalate_cons (separator x : List α) (xs : List (List α)) :
    separator.intercalate (x :: xs) = x ++ xs.flatMap (separator ++ ·) := by
  induction xs generalizing x with
  | nil => simp
  | cons y ys ih =>
    rw [intercalate_cons_cons, ih y, flatMap_cons]
    simp only [append_assoc]

variable {texts : Set (List α)} {separator : List α} {xs ys : List (List α)}

theorem intercalate_ne_nil (hnil : [] ∉ texts) (hxs : ∀ x ∈ xs, x ∈ texts) (hne : xs ≠ []) :
    separator.intercalate xs ≠ [] := by
  cases xs with
  | nil => exact absurd rfl hne
  | cons x xs =>
    rw [intercalate_cons]
    intro h
    have hx := (append_eq_nil_iff.mp h).1
    exact hnil (hx ▸ hxs x mem_cons_self)

theorem flatMap_separator_inj (htexts : Delimited texts) (hsep : separator ≠ [])
    (hxs : ∀ x ∈ xs, x ∈ texts) (hys : ∀ y ∈ ys, y ∈ texts)
    (h : xs.flatMap (separator ++ ·) = ys.flatMap (separator ++ ·)) : xs = ys := by
  induction xs generalizing ys with
  | nil =>
    cases ys with
    | nil => rfl
    | cons y ys => simp [hsep] at h
  | cons x xs ih =>
    cases ys with
    | nil => simp [hsep] at h
    | cons y ys =>
      rw [forall_mem_cons] at hxs hys
      simp only [flatMap_cons, append_assoc] at h
      obtain ⟨hhead, htail⟩ := htexts.append_inj hxs.1 hys.1 (append_cancel_left h)
      rw [hhead, ih hxs.2 hys.2 htail]

theorem intercalate_inj (htexts : Delimited texts) (hsep : separator ≠ []) (hnil : [] ∉ texts)
    (hxs : ∀ x ∈ xs, x ∈ texts) (hys : ∀ y ∈ ys, y ∈ texts)
    (h : separator.intercalate xs = separator.intercalate ys) : xs = ys := by
  cases xs with
  | nil =>
    cases ys with
    | nil => rfl
    | cons y ys => exact absurd h.symm (intercalate_ne_nil hnil hys (cons_ne_nil y ys))
  | cons x xs =>
    cases ys with
    | nil => exact absurd h (intercalate_ne_nil hnil hxs (cons_ne_nil x xs))
    | cons y ys =>
      rw [forall_mem_cons] at hxs hys
      rw [intercalate_cons, intercalate_cons] at h
      obtain ⟨hhead, htail⟩ := htexts.append_inj hxs.1 hys.1 h
      rw [hhead, flatMap_separator_inj htexts hsep hxs.2 hys.2 htail]

/-! ### Codes that tell the same values apart -/

theorem map_eq_map_iff {β γ δ : Type*} {f : β → γ} {g : β → δ}
    (h : ∀ x y, f x = f y ↔ g x = g y) {xs ys : List β} :
    xs.map f = ys.map f ↔ xs.map g = ys.map g := by
  induction xs generalizing ys with
  | nil => cases ys <;> simp
  | cons x xs ih =>
    cases ys with
    | nil => simp
    | cons y ys => rw [map_cons, map_cons, map_cons, map_cons, List.cons.injEq,
        List.cons.injEq, h, ih]

/-! ### The last mark -/

theorem append_cons_inj {mark : α} {x x' y y' : List α} (hy : mark ∉ y) (hy' : mark ∉ y')
    (h : x ++ mark :: y = x' ++ mark :: y') : x = x' ∧ y = y' := by
  rcases append_eq_append_iff.mp h with ⟨middle, hx, hrest⟩ | ⟨middle, hx, hrest⟩
  · cases middle with
    | nil => exact ⟨by simpa using hx.symm, by simpa using hrest⟩
    | cons a middle =>
      rw [cons_append, List.cons.injEq] at hrest
      exact absurd (hrest.2 ▸ mem_append_right _ mem_cons_self) hy
  · cases middle with
    | nil => exact ⟨by simpa using hx, by simpa using hrest.symm⟩
    | cons a middle =>
      rw [cons_append, List.cons.injEq] at hrest
      exact absurd (hrest.2 ▸ mem_append_right _ mem_cons_self) hy'

/-! ### Joined texts, split again -/

theorem notMem_of_mem_splitOn [DecidableEq α] {mark : α} {text part : List α}
    (h : part ∈ text.splitOn mark) : mark ∉ part := by
  induction hn : text.length using Nat.strong_induction_on generalizing text with
  | _ n ih =>
    by_cases hmem : mark ∈ text
    · obtain ⟨front, rest, rfl, hfront⟩ := eq_append_cons_of_mem hmem
      rw [splitOn_append_cons_self_of_not_mem hfront, mem_cons] at h
      rcases h with rfl | h
      · exact hfront
      · refine ih rest.length ?_ h rfl
        rw [← hn, length_append, length_cons]
        omega
    · rw [splitOn_eq_singleton hmem, mem_singleton] at h
      rwa [h]

/-- Texts are the first parts of the joined text if the mark is in none of them. -/
theorem splitOn_intercalate_iff [DecidableEq α] {mark : α} {texts : List (List α)} :
    (∀ (k : Nat) (text : List α), texts[k]? = some text →
        (([mark].intercalate texts).splitOn mark)[k]? = some text) ↔
      ∀ text ∈ texts, mark ∉ text := by
  constructor
  · intro h text htext
    obtain ⟨k, hk⟩ := getElem?_of_mem htext
    exact notMem_of_mem_splitOn (mem_of_getElem? (h k text hk))
  · intro h k text hk
    have hne : texts ≠ [] := by
      rintro rfl
      cases hk
    rwa [splitOn_intercalate mark h hne]

end Coding
