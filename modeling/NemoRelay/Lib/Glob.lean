import Mathlib.Data.List.Basic

/-!
# Path patterns

Patterns of whole path segments: a literal, one arbitrary segment, or any number of segments.
-/

namespace Glob

open List

inductive Segment (α : Type*)
  | exact (value : α)
  | any
  | anyDepth
  deriving DecidableEq

variable {α : Type*}

inductive Matches : List (Segment α) → List α → Prop
  | nil : Matches [] []
  | exact {pattern : List (Segment α)} {path : List α} (value : α) :
      Matches pattern path → Matches (.exact value :: pattern) (value :: path)
  | any {pattern : List (Segment α)} {path : List α} (value : α) :
      Matches pattern path → Matches (.any :: pattern) (value :: path)
  | stop {pattern : List (Segment α)} {path : List α} :
      Matches pattern path → Matches (.anyDepth :: pattern) path
  | more {pattern : List (Segment α)} {path : List α} (value : α) :
      Matches (.anyDepth :: pattern) path → Matches (.anyDepth :: pattern) (value :: path)

variable {pattern block : List (Segment α)} {path : List α} {value : α}

@[simp] theorem matches_nil_left : Matches ([] : List (Segment α)) path ↔ path = [] := by
  constructor
  · rintro ⟨⟩
    rfl
  · rintro rfl
    exact .nil

@[simp] theorem matches_exact_cons {expected : α} :
    Matches (.exact expected :: pattern) (value :: path) ↔
      expected = value ∧ Matches pattern path := by
  constructor
  · rintro ⟨⟩
    exact ⟨rfl, ‹_›⟩
  · rintro ⟨rfl, h⟩
    exact .exact _ h

@[simp] theorem matches_any_cons :
    Matches (.any :: pattern) (value :: path) ↔ Matches pattern path := by
  constructor
  · rintro ⟨⟩
    assumption
  · exact .any value

theorem matches_nil_right : Matches pattern [] ↔ ∀ segment ∈ pattern, segment = .anyDepth := by
  induction pattern with
  | nil => simp
  | cons segment pattern ih =>
    rw [forall_mem_cons, ← ih]
    constructor
    · rintro ⟨⟩
      exact ⟨rfl, ‹_›⟩
    · rintro ⟨rfl, h⟩
      exact .stop h

/-- What follows a segment for any depth matches a rest of the path. -/
theorem matches_anyDepth_iff :
    Matches (.anyDepth :: pattern) path ↔ ∃ k ≤ path.length, Matches pattern (path.drop k) := by
  induction path with
  | nil =>
    constructor
    · rintro ⟨⟩
      exact ⟨0, Nat.le_refl _, ‹_›⟩
    · rintro ⟨k, -, h⟩
      rw [drop_nil] at h
      exact .stop h
  | cons value path ih =>
    constructor
    · intro h
      cases h with
      | stop h => exact ⟨0, Nat.zero_le _, h⟩
      | more _ h =>
        obtain ⟨k, hk, h⟩ := ih.mp h
        exact ⟨k + 1, Nat.succ_le_succ hk, h⟩
    · rintro ⟨k, hk, h⟩
      cases k with
      | zero => exact .stop h
      | succ k => exact .more _ (ih.mpr ⟨k, Nat.le_of_succ_le_succ hk, h⟩)

/-- The rest of a segment for any depth matches here or later. -/
theorem matches_anyDepth_drop_iff {j : Nat} (hj : j ≤ path.length) :
    Matches (.anyDepth :: pattern) (path.drop j) ↔
      Matches pattern (path.drop j) ∨
        ∃ k, j < k ∧ k ≤ path.length ∧ Matches pattern (path.drop k) := by
  rw [matches_anyDepth_iff]
  simp only [length_drop, drop_drop]
  constructor
  · rintro ⟨k, hk, h⟩
    cases k with
    | zero => exact .inl h
    | succ k => exact .inr ⟨j + (k + 1), by omega, by omega, h⟩
  · rintro (h | ⟨k, hk, hlength, h⟩)
    · exact ⟨0, Nat.zero_le _, h⟩
    · exact ⟨k - j, by omega, by rwa [show j + (k - j) = k by omega]⟩

/-- More segments of the path before the rest do not matter after a segment for any depth. -/
theorem matches_anyDepth_of_drop {i j : Nat} (hij : i ≤ j) (hj : j ≤ path.length)
    (h : Matches (.anyDepth :: pattern) (path.drop j)) :
    Matches (.anyDepth :: pattern) (path.drop i) := by
  obtain ⟨k, hk, h⟩ := matches_anyDepth_iff.mp h
  rw [length_drop] at hk
  refine matches_anyDepth_iff.mpr ⟨j - i + k, by rw [length_drop]; omega, ?_⟩
  rw [drop_drop] at h ⊢
  rwa [show i + (j - i + k) = j + k by omega]

/-- Segments of fixed depth take as many segments of the path. -/
theorem Matches.of_block (hblock : ∀ segment ∈ block, segment ≠ .anyDepth)
    (h : Matches (block ++ pattern) path) :
    block.length ≤ path.length ∧ Matches pattern (path.drop block.length) := by
  induction block generalizing path with
  | nil => exact ⟨Nat.zero_le _, h⟩
  | cons segment block ih =>
    rw [forall_mem_cons] at hblock
    cases h with
    | exact _ h | any _ h =>
      obtain ⟨hlength, hrest⟩ := ih hblock.2 h
      exact ⟨Nat.succ_le_succ hlength, hrest⟩
    | stop | more => exact absurd rfl hblock.1

theorem exists_matches [Inhabited α] (pattern : List (Segment α)) :
    ∃ path, Matches pattern path := by
  induction pattern with
  | nil => exact ⟨[], .nil⟩
  | cons segment pattern ih =>
    obtain ⟨path, h⟩ := ih
    cases segment with
    | exact value => exact ⟨_, .exact value h⟩
    | any => exact ⟨_, .any default h⟩
    | anyDepth => exact ⟨_, .stop h⟩

theorem exists_matches_cons [Inhabited α] (hne : pattern ≠ []) :
    ∃ value path, Matches pattern (value :: path) := by
  obtain ⟨segment, pattern, rfl⟩ := exists_cons_of_ne_nil hne
  obtain ⟨path, h⟩ := exists_matches pattern
  cases segment with
  | exact value => exact ⟨_, _, .exact value h⟩
  | any => exact ⟨_, _, .any default h⟩
  | anyDepth => exact ⟨_, _, .more default (.stop h)⟩

theorem matches_map_exact {expected : List α} :
    Matches (expected.map .exact) path ↔ expected = path := by
  induction expected generalizing path with
  | nil => simp [eq_comm]
  | cons value expected ih =>
    cases path with
    | nil => simp [matches_nil_right]
    | cons value' path => simp [ih]

end Glob
