import Mathlib.Logic.Relation
import Mathlib.Data.List.Basic

/-!
# Transition systems

Deterministic, partial step functions and the states they reach. An action that is not
enabled gives `none`, so that a run exists only if each of its steps does.
-/

structure System (σ : Type*) (α : Type*) where
  init : σ → Prop
  step : σ → α → Option σ

namespace System

variable {σ α : Type*} {M : System σ α}

/-- Take the actions of a list one after another. -/
def run (M : System σ α) : σ → List α → Option σ
  | s, [] => some s
  | s, a :: as => (M.step s a).bind fun t => M.run t as

/-- The states that a finite run from an initial state ends in. -/
inductive Reachable (M : System σ α) : σ → Prop
  | init {s : σ} (h : M.init s) : Reachable M s
  | step {s t : σ} {a : α} (hs : Reachable M s) (h : M.step s a = some t) : Reachable M t

/-- A predicate that every initial state satisfies and every step keeps. -/
structure Inductive (M : System σ α) (P : σ → Prop) : Prop where
  init : ∀ s, M.init s → P s
  step : ∀ s a t, P s → M.step s a = some t → P t

/-! ### Invariant rules -/

/-- **Invariant rule**: an inductive predicate holds of every reachable state. -/
theorem Inductive.reachable {P : σ → Prop} (hP : M.Inductive P) {s : σ} (hs : M.Reachable s) :
    P s := by
  induction hs with
  | init h => exact hP.init _ h
  | step _ h ih => exact hP.step _ _ _ ih h

/-! ### Runs -/

@[simp] theorem run_nil (s : σ) : M.run s [] = some s := rfl

theorem run_cons (s : σ) (a : α) (as : List α) :
    M.run s (a :: as) = (M.step s a).bind fun t => M.run t as := rfl

theorem Reachable.run {s t : σ} (hs : M.Reachable s) {as : List α} (h : M.run s as = some t) :
    M.Reachable t := by
  induction as generalizing s with
  | nil => cases h; exact hs
  | cons a as ih =>
    rw [run_cons, Option.bind_eq_some_iff] at h
    obtain ⟨u, hstep, hrun⟩ := h
    exact ih (hs.step hstep) hrun

/-- A state computed by a run from an initial state is reachable. -/
theorem reachable_of_run {s t : σ} (as : List α) (hs : M.init s) (h : M.run s as = some t) :
    M.Reachable t :=
  (Reachable.init hs).run h

end System

/-- The entries of a log that grew by one. -/
theorem getElem?_concat_eq_some {α : Type*} {l : List α} {a b : α} {i : Nat} :
    (l ++ [a])[i]? = some b ↔ l[i]? = some b ∨ i = l.length ∧ a = b := by
  grind

/-- A machine that answers every action. -/
structure Machine (σ : Type*) (α : Type*) (β : Type*) where
  step : σ → α → β × σ

namespace Machine

variable {σ τ α β : Type*}

/-- The replies of a run and the state it ends in. -/
def run (M : Machine σ α β) : σ → List α → List β × σ
  | s, [] => ([], s)
  | s, a :: as => ((M.step s a).1 :: (M.run (M.step s a).2 as).1, (M.run (M.step s a).2 as).2)

/-- The steps of a run: the state before, the action and the reply. -/
def trace (M : Machine σ α β) : σ → List α → List (σ × α × β)
  | _, [] => []
  | s, a :: as => (s, a, (M.step s a).1) :: M.trace (M.step s a).2 as

theorem run_append (M : Machine σ α β) (s : σ) (as bs : List α) :
    (M.run s (as ++ bs)).2 = (M.run (M.run s as).2 bs).2 := by
  induction as generalizing s with
  | nil => rfl
  | cons a as ih => exact ih _

theorem trace_append (M : Machine σ α β) (s : σ) (as bs : List α) :
    M.trace s (as ++ bs) = M.trace s as ++ M.trace (M.run s as).2 bs := by
  induction as generalizing s with
  | nil => rfl
  | cons a as ih => exact congrArg _ (ih _)

variable {M : Machine σ α β} {P : List (σ × α × β) → σ → Prop} {s : σ}

theorem run_induction_from
    (hstep : ∀ log s a, P log s → P (log ++ [(s, a, (M.step s a).1)]) (M.step s a).2)
    {log : List (σ × α × β)} (h : P log s) (as : List α) :
    P (log ++ M.trace s as) (M.run s as).2 := by
  induction as generalizing log s with
  | nil => rwa [trace, List.append_nil]
  | cons a as ih =>
    have h' := ih (hstep log s a h)
    rwa [List.append_assoc] at h'

/-- **Run rule**: what holds of the empty trace and survives a step holds of every run. -/
theorem run_induction
    (hstep : ∀ log s a, P log s → P (log ++ [(s, a, (M.step s a).1)]) (M.step s a).2)
    (h : P [] s) (as : List α) : P (M.trace s as) (M.run s as).2 :=
  run_induction_from hstep h as

/-- **Invariant rule** for the states of a run. -/
theorem run_invariant {P : σ → Prop} (hstep : ∀ s a, P s → P (M.step s a).2) (h : P s)
    (as : List α) : P (M.run s as).2 := by
  induction as generalizing s with
  | nil => exact h
  | cons a as ih => exact ih (hstep s a h)

/-- A relation under which two machines give the same replies, step by step. -/
def Simulates (M : Machine σ α β) (N : Machine τ α β) (R : σ → τ → Prop) : Prop :=
  ∀ s t a, R s t → (M.step s a).1 = (N.step t a).1 ∧ R (M.step s a).2 (N.step t a).2

/-- **Simulation rule**: related states give the same replies on every run. -/
theorem Simulates.run {N : Machine τ α β} {R : σ → τ → Prop} (h : M.Simulates N R) {t : τ}
    (hR : R s t) (as : List α) :
    (M.run s as).1 = (N.run t as).1 ∧ R (M.run s as).2 (N.run t as).2 := by
  induction as generalizing s t with
  | nil => exact ⟨rfl, hR⟩
  | cons a as ih =>
    obtain ⟨hreply, hR'⟩ := h s t a hR
    obtain ⟨hreplies, hend⟩ := ih hR'
    exact ⟨congrArg₂ _ hreply hreplies, hend⟩

end Machine
