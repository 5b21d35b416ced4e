import Mathlib

/-!
# Checked sums

Sums of counts that may be absent, in a range with an upper bound. A checked sum is lost as soon as
it leaves the range, and stays lost; a saturating sum stays at the greatest value.
-/

namespace CheckedSum

open List

/-! ### Exact sums -/

/-- The sum of the counts that are present. -/
def presentSum (values : List (Option Nat)) : Nat := values.reduceOption.sum

/-- The sum of the counts that are present, if any is. -/
def exactSum (values : List (Option Nat)) : Option Nat :=
  if values.reduceOption = [] then none else some (presentSum values)

@[simp] theorem presentSum_nil : presentSum [] = 0 := rfl

theorem presentSum_append (first second : List (Option Nat)) :
    presentSum (first ++ second) = presentSum first + presentSum second := by
  simp [presentSum, reduceOption_append]

@[simp] theorem presentSum_cons (value : Option Nat) (values : List (Option Nat)) :
    presentSum (value :: values) = value.getD 0 + presentSum values := by
  cases value <;> simp [presentSum]

variable (values : List (Option Nat))

theorem getD_exactSum : (exactSum values).getD 0 = presentSum values := by
  unfold exactSum
  split
  · next h => simp [presentSum, h]
  · rfl

theorem exactSum_concat_none : exactSum (values ++ [none]) = exactSum values := by
  simp [exactSum, presentSum, reduceOption_append]

theorem exactSum_concat_some (n : Nat) :
    exactSum (values ++ [some n]) = some (presentSum values + n) := by
  simp [exactSum, presentSum, reduceOption_append]

variable {first second : List (Option Nat)}

theorem presentSum_perm (h : first.Perm second) : presentSum first = presentSum second :=
  (h.filterMap id).sum_eq

theorem exactSum_perm (h : first.Perm second) : exactSum first = exactSum second := by
  have hempty : first.reduceOption = [] ↔ second.reduceOption = [] := by
    have hperm : first.reduceOption.Perm second.reduceOption := h.filterMap id
    exact ⟨fun hnil => nil_perm.mp (hnil ▸ hperm), fun hnil => perm_nil.mp (hnil ▸ hperm)⟩
  simp only [exactSum, hempty, presentSum_perm h]

/-! ### Checked sums -/

/-- A sum within the bound. -/
def add (bound a b : Nat) : Option Nat := if a + b < bound then some (a + b) else none

variable {bound : Nat}

theorem add_eq_some {a b total : Nat} : add bound a b = some total ↔
    total = a + b ∧ a + b < bound := by
  unfold add
  split
  · next h => simp [h, eq_comm]
  · next h => simp [h]

theorem eq_of_foldlM_add {values : List (Option Nat)} {start total : Nat}
    (h : values.reduceOption.foldlM (add bound) start = some total) :
    total = start + presentSum values := by
  unfold presentSum
  generalize values.reduceOption = values at h ⊢
  induction values generalizing start with
  | nil => simpa [eq_comm] using h
  | cons value values ih =>
    obtain ⟨next, hnext, hrest⟩ := Option.bind_eq_some_iff.mp h
    rw [ih hrest, (add_eq_some.mp hnext).1, sum_cons, Nat.add_assoc]

/-- A running sum, and whether it was lost. -/
structure Count where
  value : Option Nat
  overflowed : Bool

namespace Count

def zero : Count := ⟨none, false⟩

/-- A sum that is lost. -/
def lost : Count := ⟨none, true⟩

/-- One more count. A sum that is lost stays lost. -/
def accumulate (bound : Nat) (count : Count) (value : Option Nat) : Count :=
  if count.overflowed then count
  else
    match value with
    | none => count
    | some value =>
      match add bound (count.value.getD 0) value with
      | some total => ⟨some total, false⟩
      | none => lost

@[simp] theorem accumulate_lost (bound : Nat) (value : Option Nat) :
    lost.accumulate bound value = lost := rfl

theorem accumulate_some (bound : Nat) (sum : Option Nat) (value : Nat) :
    accumulate bound ⟨sum, false⟩ (some value) =
      if sum.getD 0 + value < bound then ⟨some (sum.getD 0 + value), false⟩ else lost := by
  simp only [accumulate, add, Bool.false_eq_true, if_false]
  split_ifs <;> rfl

end Count

/-- The checked sum of counts, some of which lose the sum whatever it is. -/
def checkedSum (bound : Nat) (values : List (Bool × Option Nat)) : Count :=
  values.foldl (fun count value =>
    (if value.1 then Count.lost else count).accumulate bound value.2) Count.zero

theorem checkedSum_concat (bound : Nat) (values : List (Bool × Option Nat))
    (value : Bool × Option Nat) :
    checkedSum bound (values ++ [value]) =
      (if value.1 then Count.lost else checkedSum bound values).accumulate bound value.2 := by
  rw [checkedSum, foldl_append]
  rfl

/-- No count loses the sum, and the exact sum is within the bound. -/
def Fits (bound : Nat) (values : List (Bool × Option Nat)) : Prop :=
  (∀ value ∈ values, value.1 = false) ∧ presentSum (values.map Prod.snd) < bound

instance (bound : Nat) (values : List (Bool × Option Nat)) : Decidable (Fits bound values) :=
  inferInstanceAs (Decidable (_ ∧ _))

variable {values : List (Bool × Option Nat)}

theorem fits_concat {value : Bool × Option Nat} :
    Fits bound (values ++ [value]) ↔ value.1 = false ∧ (∀ value ∈ values, value.1 = false) ∧
      presentSum (values.map Prod.snd) + value.2.getD 0 < bound := by
  have hsum : presentSum ((values ++ [value]).map Prod.snd) =
      presentSum (values.map Prod.snd) + value.2.getD 0 := by
    rw [map_append, presentSum_append]
    cases h : value.2 <;> simp [h]
  rw [Fits, hsum]
  simp only [forall_mem_append, forall_mem_singleton]
  tauto

/-- **Closed form**: a checked sum is the exact sum if that fits, and lost otherwise. -/
theorem checkedSum_eq (hbound : 0 < bound) (values : List (Bool × Option Nat)) :
    checkedSum bound values =
      if Fits bound values then ⟨exactSum (values.map Prod.snd), false⟩ else Count.lost := by
  induction values using List.reverseRecOn with
  | nil => rw [if_pos ⟨by simp, hbound⟩]; rfl
  | append_singleton values value ih =>
    obtain ⟨poisoned, value⟩ := value
    rw [checkedSum_concat, map_append, map_singleton]
    cases poisoned with
    | true =>
      rw [if_neg fun h => absurd (fits_concat.mp h).1 (by simp)]
      rfl
    | false =>
      rw [if_neg Bool.false_ne_true, ih]
      by_cases hfits : Fits bound values
      · rw [if_pos hfits]
        cases value with
        | none =>
          rw [if_pos (fits_concat.mpr ⟨rfl, hfits.1, by simpa using hfits.2⟩), exactSum_concat_none]
          rfl
        | some n =>
          rw [Count.accumulate_some, getD_exactSum, exactSum_concat_some]
          refine if_congr ?_ rfl rfl
          rw [fits_concat]
          exact ⟨fun h => ⟨rfl, hfits.1, h⟩, fun h => h.2.2⟩
      · rw [if_neg hfits, Count.accumulate_lost, if_neg]
        intro h
        obtain ⟨-, hpoison, hsum⟩ := fits_concat.mp h
        exact hfits ⟨hpoison, by omega⟩

variable {second : List (Bool × Option Nat)} {first : List (Bool × Option Nat)}

theorem fits_perm (h : first.Perm second) : Fits bound first ↔ Fits bound second := by
  have hpoison : (∀ value ∈ first, value.1 = false) ↔ ∀ value ∈ second, value.1 = false :=
    forall_congr' fun value => by rw [h.mem_iff]
  rw [Fits, Fits, hpoison, presentSum_perm (h.map Prod.snd)]

/-- The order makes no difference. -/
theorem checkedSum_perm (hbound : 0 < bound) (h : first.Perm second) :
    checkedSum bound first = checkedSum bound second := by
  simp only [checkedSum_eq hbound, fits_perm h, exactSum_perm (h.map Prod.snd)]

theorem checkedSum_of_not_overflowed (hbound : 0 < bound)
    (h : (checkedSum bound values).overflowed = false) :
    Fits bound values ∧ (checkedSum bound values).value = exactSum (values.map Prod.snd) := by
  rw [checkedSum_eq hbound] at h ⊢
  split at h
  · next hfits => exact ⟨hfits, by rw [if_pos hfits]⟩
  · cases h

/-! ### Saturating sums -/

/-- A sum that stays at the greatest value. -/
def saturatingSum (greatest : Nat) (values : List Nat) : Nat :=
  values.foldl (fun total value => min (total + value) greatest) 0

theorem saturatingSum_concat (greatest : Nat) (values : List Nat) (value : Nat) :
    saturatingSum greatest (values ++ [value]) =
      min (saturatingSum greatest values + value) greatest := by
  rw [saturatingSum, foldl_append]
  rfl

theorem saturatingSum_eq_sum {greatest : Nat} {values : List Nat} (h : values.sum ≤ greatest) :
    saturatingSum greatest values = values.sum := by
  induction values using List.reverseRecOn with
  | nil => rfl
  | append_singleton values value ih =>
    rw [sum_append, sum_singleton] at h ⊢
    rw [saturatingSum_concat, ih (by omega), Nat.min_eq_left h]

end CheckedSum
