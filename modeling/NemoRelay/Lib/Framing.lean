import Mathlib.Data.List.Basic
import Mathlib.Data.Nat.Find
import Mathlib.Data.Option.Basic

/-!
# Frames that end with a doubled mark

A stream is cut into frames at every occurrence of `mark, mark`, from the left and without
overlaps. What follows the last occurrence is the remainder.
-/

namespace Framing

open List

variable {α : Type*}

def PairAt (mark : α) (l : List α) (i : Nat) : Prop := l[i]? = some mark ∧ l[i + 1]? = some mark

variable {mark : α} {l m : List α} {i j k : Nat}

theorem PairAt.lt (h : PairAt mark l i) : i + 1 < l.length :=
  (List.getElem?_eq_some_iff.mp h.2).1

theorem pairAt_drop : PairAt mark (l.drop j) i ↔ PairAt mark l (j + i) := by
  rw [PairAt, PairAt, getElem?_drop, getElem?_drop, Nat.add_assoc]

/-- Within the first list nothing changes when another one follows. -/
theorem pairAt_append_of_lt (h : i + 1 < l.length) : PairAt mark (l ++ m) i ↔ PairAt mark l i := by
  rw [PairAt, PairAt, getElem?_append_left (by omega), getElem?_append_left h]

theorem PairAt.append_right (h : PairAt mark l i) (m : List α) : PairAt mark (l ++ m) i :=
  (pairAt_append_of_lt h.lt).mpr h

theorem pairAt_take_of_lt (h : i + 1 < k) : PairAt mark (l.take k) i ↔ PairAt mark l i := by
  rw [PairAt, PairAt, getElem?_take_of_lt (by omega), getElem?_take_of_lt h]

variable [DecidableEq α]

/-- The first index of a doubled mark. -/
def findPair (mark : α) : List α → Option Nat
  | a :: b :: rest =>
    if a = mark ∧ b = mark then some 0 else (findPair mark (b :: rest)).map (· + 1)
  | _ => none

/-! ### Search -/

theorem findPair_eq_some :
    findPair mark l = some k ↔ PairAt mark l k ∧ ∀ i < k, ¬ PairAt mark l i := by
  induction l generalizing k with
  | nil => simp [findPair, PairAt]
  | cons a l ih =>
    cases l with
    | nil => simp [findPair, PairAt]
    | cons b rest =>
      rw [findPair]
      by_cases hab : a = mark ∧ b = mark
      · rw [if_pos hab]
        obtain ⟨rfl, rfl⟩ := hab
        constructor
        · intro h
          cases h
          exact ⟨⟨rfl, rfl⟩, nofun⟩
        · rintro ⟨-, hfirst⟩
          cases k with
          | zero => rfl
          | succ k => exact absurd ⟨rfl, rfl⟩ (hfirst 0 (Nat.succ_pos k))
      · rw [if_neg hab, Option.map_eq_some_iff]
        have hzero : ¬ PairAt mark (a :: b :: rest) 0 := by simpa [PairAt] using hab
        constructor
        · rintro ⟨k, hk, rfl⟩
          obtain ⟨hpair, hfirst⟩ := ih.mp hk
          refine ⟨hpair, ?_⟩
          intro i hi
          cases i with
          | zero => exact hzero
          | succ i => exact hfirst i (Nat.lt_of_succ_lt_succ hi)
        · rintro ⟨hpair, hfirst⟩
          cases k with
          | zero => exact absurd hpair hzero
          | succ k =>
            refine ⟨k, ih.mpr ⟨hpair, ?_⟩, rfl⟩
            intro i hi
            exact hfirst (i + 1) (Nat.succ_lt_succ hi)

theorem findPair_eq_none : findPair mark l = none ↔ ∀ i, ¬ PairAt mark l i := by
  constructor
  · intro h i hi
    classical
    have hex : ∃ i, PairAt mark l i := ⟨i, hi⟩
    have hsome := findPair_eq_some.mpr ⟨Nat.find_spec hex, fun i hi => Nat.find_min hex hi⟩
    rw [h] at hsome
    cases hsome
  · intro h
    cases hk : findPair mark l with
    | none => rfl
    | some k => exact absurd (findPair_eq_some.mp hk).1 (h k)

/-- A search that starts at `j` misses nothing if there is nothing before `j`. -/
theorem findPair_skip (h : ∀ i < j, ¬ PairAt mark l i) :
    findPair mark l = (findPair mark (l.drop j)).map (j + ·) := by
  cases hd : findPair mark (l.drop j) with
  | none =>
    rw [findPair_eq_none] at hd
    rw [Option.map_none, findPair_eq_none]
    intro i hi
    by_cases hij : i < j
    · exact h i hij hi
    · obtain ⟨d, rfl⟩ := Nat.exists_eq_add_of_le (Nat.le_of_not_lt hij)
      exact hd d (pairAt_drop.mpr hi)
  | some k =>
    obtain ⟨hpair, hfirst⟩ := findPair_eq_some.mp hd
    rw [Option.map_some, findPair_eq_some]
    refine ⟨pairAt_drop.mp hpair, ?_⟩
    intro i hi hp
    by_cases hij : i < j
    · exact h i hij hp
    · obtain ⟨d, rfl⟩ := Nat.exists_eq_add_of_le (Nat.le_of_not_lt hij)
      exact hfirst d (by omega) (pairAt_drop.mpr hp)

section

variable (h : findPair mark l = some k)
include h

theorem findPair_append : findPair mark (l ++ m) = some k := by
  obtain ⟨hpair, hfirst⟩ := findPair_eq_some.mp h
  refine findPair_eq_some.mpr ⟨hpair.append_right m, ?_⟩
  intro i hi hp
  have hlt := hpair.lt
  exact hfirst i hi ((pairAt_append_of_lt (by omega)).mp hp)

theorem findPair_take : findPair mark (l.take (k + 2)) = some k := by
  obtain ⟨hpair, hfirst⟩ := findPair_eq_some.mp h
  refine findPair_eq_some.mpr ⟨(pairAt_take_of_lt (by omega)).mpr hpair, ?_⟩
  intro i hi hp
  exact hfirst i hi ((pairAt_take_of_lt (by omega)).mp hp)

theorem findPair_lt : k + 1 < l.length :=
  (findPair_eq_some.mp h).1.lt

end

/-! ### Splitting -/

/-- The frames of a list, without their terminators, and the remainder. -/
def split (mark : α) (l : List α) : List (List α) × List α :=
  match h : findPair mark l with
  | none => ([], l)
  | some k =>
    have := findPair_lt h
    let rest := split mark (l.drop (k + 2))
    (l.take k :: rest.1, rest.2)
  termination_by l.length

theorem split_of_none (h : findPair mark l = none) : split mark l = ([], l) := by
  rw [split]
  split <;> simp_all

theorem split_of_some (h : findPair mark l = some k) :
    split mark l =
      (l.take k :: (split mark (l.drop (k + 2))).1, (split mark (l.drop (k + 2))).2) := by
  rw [split]
  split <;> simp_all

/-- The remainder holds no terminator. -/
theorem findPair_remainder (l : List α) : findPair mark (split mark l).2 = none := by
  induction l using split.induct mark with
  | case1 l h => rwa [split_of_none h]
  | case2 l k h _ ih => rwa [split_of_some h]

/-- What was cut off ends with the mark, and cutting can go on behind it. -/
theorem split_resume (mark : α) (l : List α) : ∃ cut, l = cut ++ (split mark l).2 ∧
    (∀ a, cut.getLast? = some a → a = mark) ∧
    ∀ m, split mark (cut ++ m) =
      ((split mark l).1 ++ (split mark m).1, (split mark m).2) := by
  induction l using split.induct mark with
  | case1 l h =>
    rw [split_of_none h]
    exact ⟨[], rfl, nofun, fun m => rfl⟩
  | case2 l k h hlt ih =>
    obtain ⟨cut, hl, hlast, hsplit⟩ := ih
    rw [split_of_some h]
    refine ⟨l.take (k + 2) ++ cut, ?_, ?_, ?_⟩
    · rw [append_assoc, ← hl, take_append_drop]
    · intro a ha
      obtain rfl | ⟨front, b, rfl⟩ := eq_nil_or_concat cut
      · have hk := (findPair_eq_some.mp h).1.2
        rw [append_nil, getLast?_eq_getElem?, length_take,
          Nat.min_eq_left (by omega), getElem?_take_of_lt (by omega)] at ha
        exact Option.some.inj (ha.symm.trans hk)
      · rw [concat_eq_append] at ha hlast
        rw [← append_assoc, getLast?_concat] at ha
        exact hlast a (by rw [getLast?_concat, ha])
    · intro m
      have hfind : findPair mark (l.take (k + 2) ++ (cut ++ m)) = some k :=
        findPair_append (findPair_take h)
      have hlen : (l.take (k + 2)).length = k + 2 := by
        rw [length_take]
        omega
      rw [append_assoc, split_of_some hfind, take_append_of_le_length (by omega),
        drop_append_of_le_length (by omega), drop_of_length_le (by omega),
        nil_append, hsplit, take_take, Nat.min_eq_left (by omega)]
      rfl

/-- A remainder that goes on without the mark ends with the next doubled mark. -/
theorem split_append_pair {front back : List α}
    (hfront : findPair mark front = none) (hback : mark ∉ back) (hne : back ≠ []) :
    split mark (front ++ back ++ [mark, mark]) = ([front ++ back], []) := by
  have hlen := length_pos_of_ne_nil hne
  have hnot : ∀ i, front.length ≤ i → i < (front ++ back).length →
      (front ++ back ++ [mark, mark])[i]? ≠ some mark := by
    intro i hle hlt hmark
    rw [getElem?_append_left hlt, getElem?_append_right hle] at hmark
    exact hback (mem_of_getElem? hmark)
  have hfind : findPair mark (front ++ back ++ [mark, mark]) = some (front ++ back).length := by
    refine findPair_eq_some.mpr ⟨⟨by simp, by grind⟩, fun i hi hpair => ?_⟩
    rw [length_append] at hi
    by_cases hlt : i + 1 < front.length
    · rw [append_assoc, pairAt_append_of_lt hlt] at hpair
      exact findPair_eq_none.mp hfront i hpair
    · by_cases hend : i + 1 < (front ++ back).length
      · exact hnot (i + 1) (by omega) hend hpair.2
      · rw [length_append] at hend
        exact hnot i (by omega) (by simp; omega) hpair.1
  have hnone : split mark ([] : List α) = ([], []) := split_of_none rfl
  rw [split_of_some hfind, take_left, drop_eq_nil_of_le (by simp; omega), hnone]

end Framing
