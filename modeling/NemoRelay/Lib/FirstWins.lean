import Mathlib.Data.List.Perm.Basic

/-!
# Merging partial records

A partial record has a value for some of its fields. Merging records one after another keeps, for
each field, the value of the first record that has one. The result does not depend on the order of
the records exactly if no two of them have different values for a field.
-/

namespace FirstWins

open Option

variable {φ ν : Type*} {a b : φ → Option ν} {l l' : List (φ → Option ν)}

def merge (a b : φ → Option ν) : φ → Option ν := fun field => (a field).or (b field)

def mergeAll (records : List (φ → Option ν)) : φ → Option ν :=
  fun field => records.findSome? (· field)

def Compatible (a b : φ → Option ν) : Prop :=
  ∀ field x y, a field = some x → b field = some y → x = y

/-! ### Merging a list -/

@[simp] theorem mergeAll_nil : mergeAll ([] : List (φ → Option ν)) = fun _ => none := rfl

theorem mergeAll_cons (a : φ → Option ν) (l : List (φ → Option ν)) :
    mergeAll (a :: l) = merge a (mergeAll l) := by
  funext field
  rw [mergeAll, merge, List.findSome?_cons]
  cases a field <;> rfl

theorem merge_assoc (a b c : φ → Option ν) : merge (merge a b) c = merge a (merge b c) := by
  funext field
  exact or_assoc

theorem merge_none (a : φ → Option ν) : merge a (fun _ => none) = a := by
  funext field
  exact or_none

theorem mergeAll_isSome {field : φ} : (mergeAll l field).isSome ↔ ∃ a ∈ l, (a field).isSome := by
  rw [mergeAll, List.findSome?_isSome_iff]

theorem merge_isSome {field : φ} :
    (merge a b field).isSome ↔ (a field).isSome ∨ (b field).isSome := by
  rw [merge, isSome_or, Bool.or_eq_true]

/-! ### Order -/

theorem merge_comm (h : Compatible a b) : merge a b = merge b a := by
  funext field
  rw [merge, merge]
  cases ha : a field with
  | none => rw [none_or, or_none]
  | some x =>
    cases hb : b field with
    | none => rfl
    | some y => rw [some_or, some_or, h field x y ha hb]

/-- **Order independence**: compatible records can be merged in any order. -/
theorem mergeAll_perm (hperm : l.Perm l') (h : ∀ a ∈ l, ∀ b ∈ l, Compatible a b) :
    mergeAll l = mergeAll l' := by
  induction hperm with
  | nil => rfl
  | cons a _ ih =>
    rw [mergeAll_cons, mergeAll_cons, ih]
    intro b hb c hc
    exact h b (List.mem_cons_of_mem _ hb) c (List.mem_cons_of_mem _ hc)
  | swap a b l =>
    rw [mergeAll_cons, mergeAll_cons, mergeAll_cons, mergeAll_cons, ← merge_assoc, ← merge_assoc,
      merge_comm (h b (by simp) a (by simp))]
  | trans hfirst _ ih ih' =>
    rw [ih h]
    apply ih'
    intro a ha b hb
    exact h a (hfirst.mem_iff.mpr ha) b (hfirst.mem_iff.mpr hb)

/-- Records that can each come first without a difference are compatible. -/
theorem compatible_of_mergeAll_eq (h : mergeAll (a :: l) = mergeAll (b :: l')) :
    Compatible a b := by
  intro field x y hx hy
  have hfield := congrFun h field
  rw [mergeAll_cons, mergeAll_cons, merge, merge, hx, hy, some_or, some_or,
    some_inj] at hfield
  exact hfield

end FirstWins
