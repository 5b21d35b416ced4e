import Mathlib.Data.List.DropRight
import Mathlib.Data.List.Infix

/-!
# Windows that drop one element for each that arrives

A window with a limit: when an element arrives and the limit is reached, the oldest one leaves. A
window that is longer than its limit never becomes shorter, so the elements that a batch leaves
behind are the last ones up to the limit only if the window was not too long before.
-/

namespace Window

open List

variable {α : Type*}

def push (limit : Nat) (window : List α) (x : α) : List α :=
  (if limit ≤ window.length then window.tail else window) ++ [x]

def pushAll (limit : Nat) (window xs : List α) : List α := xs.foldl (push limit) window

/-- The last elements, as many as the limit allows, and at least one. -/
def last (limit : Nat) (xs : List α) : List α := xs.rtake (max 1 limit)

variable (limit : Nat) (xs : List α)

theorem length_last : (last limit xs).length = min (max 1 limit) xs.length := by
  rw [last, List.rtake, length_drop]
  omega

theorem last_suffix : last limit xs <:+ xs := drop_suffix _ xs

variable (window : List α)

theorem push_suffix (x : α) : push limit window x <:+ window ++ [x] := by
  rw [push, suffix_append_self_iff]
  split
  · exact tail_suffix window
  · exact suffix_rfl

theorem length_push (x : α) :
    (push limit window x).length =
      if limit ≤ window.length then max 1 window.length else window.length + 1 := by
  rw [push, length_append, length_singleton]
  split
  · rw [length_tail]
    omega
  · rfl

theorem pushAll_suffix (window xs : List α) : pushAll limit window xs <:+ window ++ xs := by
  induction xs generalizing window with
  | nil => rw [append_nil]; exact suffix_rfl
  | cons x xs ih =>
    have hstep : push limit window x ++ xs <:+ window ++ [x] ++ xs :=
      suffix_append_self_iff.mpr (push_suffix limit window x)
    rw [append_assoc] at hstep
    exact (ih (push limit window x)).trans hstep

/-- A window grows up to its limit and never shrinks. -/
theorem length_pushAll {xs : List α} (hne : xs ≠ []) :
    (pushAll limit window xs).length =
      max window.length (min (window.length + xs.length) (max 1 limit)) := by
  induction xs generalizing window with
  | nil => exact absurd rfl hne
  | cons x xs ih =>
    have hpush := length_push limit window x
    rw [pushAll, foldl_cons, ← pushAll]
    cases xs with
    | nil =>
      rw [pushAll, foldl_nil, hpush, length_singleton]
      split <;> omega
    | cons y ys =>
      rw [ih _ (cons_ne_nil y ys), hpush]
      simp only [length_cons]
      split <;> omega

/-- A batch leaves the last elements exactly if the window was within its limit before. -/
theorem pushAll_eq_last_iff {limit : Nat} {window xs : List α} (hne : xs ≠ []) :
    pushAll limit window xs = last limit (window ++ xs) ↔ window.length ≤ max 1 limit := by
  have hlength := length_pushAll limit window hne
  have hlast := length_last limit (window ++ xs)
  rw [length_append] at hlast
  constructor
  · intro h
    rw [← h] at hlast
    omega
  · intro hwindow
    have hsuffix := suffix_of_suffix_length_le (pushAll_suffix limit window xs)
      (last_suffix limit (window ++ xs)) (by omega)
    exact hsuffix.eq_of_length (by omega)

theorem length_pushAll_le {limit : Nat} {window : List α} (h : window.length ≤ max 1 limit) :
    (pushAll limit window xs).length ≤ max 1 limit := by
  by_cases hne : xs = []
  · rw [hne]
    exact h
  · rw [length_pushAll _ _ hne]
    omega

end Window
