import Mathlib.Data.List.Forall2

/-!
# Errors

The part of `error.rs` that the modelled code returns, and how a computation that may fail
succeeds.
-/

namespace NemoRelay

open List

inductive FlowError
  | alreadyExists (message : String)
  | notFound (message : String)
  | invalidArgument (message : String)
  | internal (message : String)

def invalidArgument {α : Type} (message : String) : Except FlowError α :=
  .error (.invalidArgument message)

/-- The value, or an invalid argument if there is none. -/
def okOr {α : Type} (value : Option α) (message : String) : Except FlowError α :=
  match value with
  | some a => .ok a
  | none => invalidArgument message

@[simp] theorem okOr_some {α : Type} (a : α) (message : String) : okOr (some a) message = .ok a :=
  rfl

theorem okOr_eq_ok {α : Type} {value : Option α} {message : String} {a : α} :
    okOr value message = .ok a ↔ value = some a := by
  cases value <;> simp [okOr, invalidArgument]

@[simp] theorem ok_bind {α β : Type} (a : α) (next : α → Except FlowError β) :
    (Except.ok a >>= next) = next a := rfl

@[simp] theorem map_ok {α β : Type} (f : α → β) (a : α) :
    (f <$> Except.ok a : Except FlowError β) = .ok (f a) := rfl

@[simp] theorem pure_eq_ok {α : Type} (a : α) : (pure a : Except FlowError α) = .ok a := rfl

/-- A sequence of two computations succeeds if both do. -/
theorem bind_eq_ok {ε α β : Type} {first : Except ε α} {next : α → Except ε β}
    {b : β} : (first >>= next) = .ok b ↔ ∃ a, first = .ok a ∧ next a = .ok b := by
  cases first <;> simp [bind, Except.bind]

theorem map_eq_ok {ε α β : Type} {f : α → β} {first : Except ε α} {b : β} :
    f <$> first = .ok b ↔ ∃ a, first = .ok a ∧ f a = b := by
  cases first <;> simp [Functor.map, Except.map]

theorem check_bind_eq_ok {β : Type} {check : Except FlowError Unit} {next : Except FlowError β}
    {b : β} : (check >>= fun _ => next) = .ok b ↔ check = .ok () ∧ next = .ok b := by
  rw [bind_eq_ok]
  exact ⟨fun ⟨_, hboth⟩ => hboth, fun hboth => ⟨(), hboth⟩⟩

/-! ### Lists of results -/

section Traverse

variable {ε α β : Type} {f : α → Except ε β}

theorem mapM_eq_ok {l : List α} {l' : List β} :
    l.mapM f = .ok l' ↔ List.Forall₂ (fun a b => f a = .ok b) l l' := by
  induction l generalizing l' with
  | nil =>
    rw [forall₂_nil_left_iff]
    exact ⟨fun h => by cases h; rfl, fun h => by rw [h]; rfl⟩
  | cons a l ih =>
    rw [mapM_cons, bind_eq_ok, forall₂_cons_left_iff]
    constructor
    · rintro ⟨b, hb, h⟩
      obtain ⟨bs, hbs, h⟩ := bind_eq_ok.mp h
      cases h
      exact ⟨b, bs, hb, ih.mp hbs, rfl⟩
    · rintro ⟨b, bs, hb, hbs, rfl⟩
      exact ⟨b, hb, bind_eq_ok.mpr ⟨bs, ih.mpr hbs, rfl⟩⟩

theorem mapM_eq_some {f : α → Option β} {l : List α} {l' : List β} :
    l.mapM f = some l' ↔ List.Forall₂ (fun a b => f a = some b) l l' := by
  induction l generalizing l' with
  | nil => simp [eq_comm]
  | cons a l ih =>
    simp [mapM_cons, Option.bind_eq_some_iff, forall₂_cons_left_iff, ih, @eq_comm _ l']

theorem exists_mapM_eq_ok {R : β → α → Prop} {l : List α} (h : ∀ a ∈ l, ∃ b, f a = .ok b ∧ R b a) :
    ∃ l', l.mapM f = .ok l' ∧ List.Forall₂ R l' l := by
  induction l with
  | nil => exact ⟨[], rfl, .nil⟩
  | cons a l ih =>
    obtain ⟨b, hb, hR⟩ := h a mem_cons_self
    obtain ⟨l', hl', hRl⟩ := ih fun a ha => h a (mem_cons_of_mem _ ha)
    refine ⟨b :: l', ?_, .cons hR hRl⟩
    rw [mapM_cons, hb, hl']
    rfl

end Traverse

section Results

variable {ε α : Type}

/-- The results up to and including the first error. -/
def untilError : List (Except ε α) → List (Except ε α)
  | [] => []
  | .ok a :: rest => .ok a :: untilError rest
  | .error e :: _ => [.error e]

def AllOk (results : List (Except ε α)) : Prop := ∀ result ∈ results, result.isOk = true

variable {results : List (Except ε α)} {rest : List (Except ε α)}

theorem untilError_append_of_allOk (h : AllOk results) :
    untilError (results ++ rest) = results ++ untilError rest := by
  induction results with
  | nil => rfl
  | cons result results ih =>
    have hresults : AllOk results := fun r hr => h r (mem_cons_of_mem _ hr)
    cases result with
    | ok a => rw [cons_append, untilError, ih hresults, cons_append]
    | error e => exact absurd (h _ mem_cons_self) Bool.false_ne_true

theorem untilError_of_allOk (h : AllOk results) : untilError results = results := by
  simpa [untilError] using @untilError_append_of_allOk _ _ _ [] h

/-- After an error nothing is added. -/
theorem untilError_append_of_not_allOk (h : ¬ AllOk results) :
    untilError (results ++ rest) = untilError results := by
  induction results with
  | nil => exact absurd nofun h
  | cons result results ih =>
    cases result with
    | ok a =>
      have hresults : ¬ AllOk results := fun hok => h (forall_mem_cons.mpr ⟨rfl, hok⟩)
      rw [cons_append, untilError, untilError, ih hresults]
    | error e => rfl

theorem untilError_untilError (results : List (Except ε α)) :
    untilError (untilError results) = untilError results := by
  induction results with
  | nil => rfl
  | cons result results ih =>
    cases result with
    | ok a => rw [untilError, untilError, ih]
    | error e => rfl

theorem allOk_append : AllOk (results ++ rest) ↔ AllOk results ∧ AllOk rest := by
  simp only [AllOk, mem_append, or_imp, forall_and]

theorem allOk_cons {result : Except ε α} :
    AllOk (result :: results) ↔ result.isOk = true ∧ AllOk results :=
  forall_mem_cons

theorem allOk_untilError : AllOk (untilError results) ↔ AllOk results := by
  induction results with
  | nil => exact Iff.rfl
  | cons result results ih =>
    cases result with
    | ok a => rw [untilError, allOk_cons, allOk_cons, ih]
    | error e =>
      rw [untilError, allOk_cons, allOk_cons]
      exact iff_of_false (fun h => Bool.false_ne_true h.1) fun h => Bool.false_ne_true h.1

end Results

end NemoRelay
