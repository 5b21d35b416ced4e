import Mathlib.Data.List.Basic
import Mathlib.Order.Basic

/-!
# Backtracing

A table of a dynamic program has a cell for each position and number of steps, and a cell points
back to the position one step before. `path` follows the pointers from a cell.
-/

namespace Backtrace

variable {ι : Type*}

/-- The positions from the first one to `i`. A filled cell is `some`, with its pointer. -/
def path (back : ι → Nat → Option (Option ι)) : Nat → ι → List ι
  | 0, _ => []
  | count + 1, i =>
    match back i (count + 1) with
    | some (some j) => path back count j ++ [i]
    | _ => [i]

/-- A cell without pointer counts one position, and a pointer goes to a filled cell at an earlier
position that counts one less. -/
structure Sound [LT ι] (back : ι → Nat → Option (Option ι)) : Prop where
  first : ∀ {i count}, back i count = some none → count = 1
  later : ∀ {i count j}, back i count = some (some j) →
    ∃ before, count = before + 2 ∧ j < i ∧ (back j (before + 1)).isSome

variable [Preorder ι] {back : ι → Nat → Option (Option ι)}

/-- What a path from a cell is. -/
structure IsPath (path : List ι) (i : ι) (count : Nat) : Prop where
  length_eq : path.length = count
  increasing : path.Pairwise (· < ·)
  le_last : ∀ j ∈ path, j ≤ i

theorem Sound.path (h : Sound back) {i : ι} {count : Nat} (hfilled : (back i count).isSome) :
    IsPath (path back count i) i count := by
  induction count generalizing i with
  | zero =>
    obtain ⟨pointer, hpointer⟩ := Option.isSome_iff_exists.mp hfilled
    cases pointer with
    | none => exact absurd (h.first hpointer) (by omega)
    | some j =>
      obtain ⟨before, hcount, -⟩ := h.later hpointer
      omega
  | succ count ih =>
    obtain ⟨pointer, hpointer⟩ := Option.isSome_iff_exists.mp hfilled
    cases pointer with
    | none =>
      have hcount : count = 0 := Nat.succ.inj (h.first hpointer)
      subst hcount
      rw [Backtrace.path, hpointer]
      exact ⟨rfl, List.pairwise_singleton _ _, by simp⟩
    | some j =>
      obtain ⟨before, hcount, hlt, hbefore⟩ := h.later hpointer
      obtain rfl : count = before + 1 := by omega
      obtain ⟨hlength, hincreasing, hle⟩ := ih hbefore
      rw [Backtrace.path, hpointer]
      refine ⟨by simp [hlength], ?_, ?_⟩
      · refine List.pairwise_append.mpr ⟨hincreasing, List.pairwise_singleton _ _, ?_⟩
        intro k hk last hlast
        rw [List.mem_singleton.mp hlast]
        exact (hle k hk).trans_lt hlt
      · intro k hk
        obtain hk | hk := List.mem_append.mp hk
        · exact (hle k hk).trans hlt.le
        · exact (List.mem_singleton.mp hk).le

end Backtrace
