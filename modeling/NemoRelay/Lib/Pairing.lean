import Mathlib.Data.List.Induction
import Mathlib.Data.List.Nodup

/-!
# Pairing ends with starts by label

Starts and ends carry an identifier and a label. An end is paired with the last start that has the
same label and no end yet. The pairing respects the identifiers exactly if at every end the last
open start with its label is the one with its identifier.
-/

open List hiding modifyLast

/-! ### The last element with a property -/

section Modify

variable {α β : Type*}

def modifyFirst (p : α → Bool) (f : α → α) : List α → List α
  | [] => []
  | x :: xs => if p x then f x :: xs else x :: modifyFirst p f xs

def modifyLast (p : α → Bool) (f : α → α) (l : List α) : List α :=
  (modifyFirst p f l.reverse).reverse

variable {p : α → Bool} (f : α → α) {l : List α}

theorem modifyFirst_of_forall (h : ∀ x ∈ l, p x = false) : modifyFirst p f l = l := by
  induction l with
  | nil => rfl
  | cons x xs ih =>
    rw [forall_mem_cons] at h
    rw [modifyFirst, h.1, ih h.2]
    rfl

theorem modifyFirst_append {l₁ l₂ : List α} {x : α} (h : ∀ y ∈ l₁, p y = false) (hx : p x = true) :
    modifyFirst p f (l₁ ++ x :: l₂) = l₁ ++ f x :: l₂ := by
  induction l₁ with
  | nil => rw [nil_append, modifyFirst, if_pos hx, nil_append]
  | cons y ys ih =>
    rw [forall_mem_cons] at h
    rw [cons_append, modifyFirst, h.1, ih h.2]
    rfl

theorem modifyLast_of_forall (h : ∀ x ∈ l, p x = false) : modifyLast p f l = l := by
  rw [modifyLast, modifyFirst_of_forall f (by simpa using h), reverse_reverse]

theorem modifyLast_append {l₁ l₂ : List α} {x : α} (h : ∀ y ∈ l₂, p y = false) (hx : p x = true) :
    modifyLast p f (l₁ ++ x :: l₂) = l₁ ++ f x :: l₂ := by
  have hsplit : (l₁ ++ x :: l₂).reverse = l₂.reverse ++ x :: l₁.reverse := by simp
  rw [modifyLast, hsplit, modifyFirst_append f (by simpa using h) hx]
  simp

theorem find?_reverse_eq_some {x : α} :
    l.reverse.find? p = some x ↔
      p x = true ∧ ∃ l₁ l₂, l = l₁ ++ x :: l₂ ∧ ∀ y ∈ l₂, p y = false := by
  rw [List.find?_eq_some_iff_append]
  refine and_congr_right fun _ => ⟨?_, ?_⟩
  · rintro ⟨as, bs, hsplit, has⟩
    rw [reverse_eq_iff] at hsplit
    exact ⟨bs.reverse, as.reverse, by simpa using hsplit, by simpa using has⟩
  · rintro ⟨l₁, l₂, rfl, hl₂⟩
    exact ⟨l₂.reverse, l₁.reverse, by simp, by simpa using hl₂⟩

/-- Either nothing has the property, or the last element that has it is changed. -/
theorem last_cases (p : α → Bool) (l : List α) :
    (∀ x ∈ l, p x = false) ∨ ∃ l₁ x l₂, l = l₁ ++ x :: l₂ ∧ p x = true ∧ ∀ y ∈ l₂, p y = false := by
  cases hfind : l.reverse.find? p with
  | none =>
    left
    simpa using hfind
  | some x =>
    obtain ⟨hx, l₁, l₂, hsplit, hl₂⟩ := find?_reverse_eq_some.mp hfind
    exact .inr ⟨l₁, x, l₂, hsplit, hx, hl₂⟩

theorem mem_modifyLast {y : α} (h : y ∈ modifyLast p f l) : y ∈ l ∨ ∃ x, y = f x := by
  rcases last_cases p l with hnone | ⟨l₁, x, l₂, rfl, hx, hl₂⟩
  · rw [modifyLast_of_forall f hnone] at h
    exact .inl h
  · rw [modifyLast_append f hl₂ hx] at h
    grind

theorem modifyLast_map {p : β → Bool} {f : β → β} {q : α → Bool} {g : α → α} {h : α → β}
    (hp : ∀ x, p (h x) = q x) (hf : ∀ x, q x = true → f (h x) = h (g x)) (l : List α) :
    modifyLast p f (l.map h) = (modifyLast q g l).map h := by
  rcases last_cases q l with hnone | ⟨l₁, x, l₂, rfl, hx, hl₂⟩
  · rw [modifyLast_of_forall g hnone, modifyLast_of_forall f]
    simpa [hp] using hnone
  · rw [modifyLast_append g hl₂ hx, map_append, map_cons,
      modifyLast_append f (by simpa [hp] using hl₂) (by rw [hp, hx]), map_append,
      map_cons, hf x hx]

end Modify

/-! ### Pairing -/

/-- Starts and ends with identifiers and labels. -/
structure Pairing (ε ι κ : Type*) where
  isStart : ε → Bool
  ident : ε → ι
  label : ε → κ

namespace Pairing

variable {ε ι κ : Type*} (S : Pairing ε ι κ) (es : List ε)

def starts : List ε := es.filter S.isStart

section Identifiers

variable [DecidableEq ι]

/-- The end with an identifier. -/
def endOf (i : ι) : Option ε := es.find? fun e => !S.isStart e && S.ident e = i

/-- The pairing by identifiers. -/
def paired : List (ε × Option ε) :=
  (S.starts es).map fun s => (s, S.endOf es (S.ident s))

/-- Every identifier is started at most once, and ended at most once after its start. -/
inductive WellFormed : List ε → Prop
  | nil : WellFormed []
  | start {es : List ε} {e : ε} : WellFormed es → S.isStart e = true →
      S.ident e ∉ (S.starts es).map S.ident → WellFormed (es ++ [e])
  | finish {es : List ε} {e : ε} : WellFormed es → S.isStart e = false →
      S.ident e ∈ (S.starts es).map S.ident → S.endOf es (S.ident e) = none → WellFormed (es ++ [e])

variable {S} {es : List ε} {e : ε}

omit [DecidableEq ι] in
theorem starts_concat_start (h : S.isStart e = true) (es : List ε) :
    S.starts (es ++ [e]) = S.starts es ++ [e] := by
  simp [starts, h]

omit [DecidableEq ι] in
theorem starts_concat_finish (h : S.isStart e = false) (es : List ε) :
    S.starts (es ++ [e]) = S.starts es := by
  simp [starts, h]

theorem endOf_concat_start (h : S.isStart e = true) (i : ι) :
    S.endOf (es ++ [e]) i = S.endOf es i := by
  simp [endOf, h]

theorem endOf_concat_finish (h : S.isStart e = false) (i : ι) :
    S.endOf (es ++ [e]) i = (S.endOf es i).or (if S.ident e = i then some e else none) := by
  by_cases hi : S.ident e = i <;> simp [endOf, h]

theorem endOf_eq_some {i : ι} (h : S.endOf es i = some e) :
    e ∈ es ∧ S.isStart e = false := by
  have hprop := find?_some h
  simp only [Bool.and_eq_true, Bool.not_eq_true'] at hprop
  exact ⟨mem_of_find?_eq_some h, hprop.1⟩

section

variable (h : S.WellFormed es)
include h

/-- Only what was started has an end. -/
theorem WellFormed.endOf_of_not_started {i : ι} (hi : i ∉ (S.starts es).map S.ident) :
    S.endOf es i = none := by
  induction h with
  | nil => rfl
  | start _ hstart _ ih =>
    rw [starts_concat_start hstart, map_append, mem_append, not_or] at hi
    rw [endOf_concat_start hstart, ih hi.1]
  | finish _ hfinish hmem _ ih =>
    rw [starts_concat_finish hfinish] at hi
    rw [endOf_concat_finish hfinish, ih hi, Option.none_or, if_neg]
    rintro rfl
    exact hi hmem

/-- An identifier is ended at most once. -/
theorem WellFormed.endOf_of_mem (he : e ∈ es) (hfinish : S.isStart e = false) :
    S.endOf es (S.ident e) = some e := by
  induction h with
  | nil => cases he
  | start _ hstart _ ih =>
    rcases mem_append.mp he with he | he
    · rw [endOf_concat_start hstart, ih he]
    · rw [mem_singleton.mp he, hstart] at hfinish
      cases hfinish
  | finish _ hlast _ hopen ih =>
    rw [endOf_concat_finish hlast]
    rcases mem_append.mp he with he | he
    · rw [ih he, Option.some_or]
    · rw [mem_singleton.mp he, hopen, Option.none_or, if_pos rfl]

theorem WellFormed.nodup : ((S.starts es).map S.ident).Nodup := by
  induction h with
  | nil => exact nodup_nil
  | start _ hstart hfresh ih =>
    rw [starts_concat_start hstart, map_append, map_singleton, ← concat_eq_append]
    exact ih.concat hfresh
  | finish _ hfinish _ _ ih => rwa [starts_concat_finish hfinish]

/-- A start that is not the one with the identifier of an end is paired as before. -/
theorem paired_concat_start (hstart : S.isStart e = true)
    (hfresh : S.ident e ∉ (S.starts es).map S.ident) :
    S.paired (es ++ [e]) = S.paired es ++ [(e, none)] := by
  rw [paired, paired, starts_concat_start hstart, map_append, map_singleton,
    endOf_concat_start hstart, h.endOf_of_not_started hfresh]
  simp only [endOf_concat_start hstart]

/-- An end is added to the start with its identifier. -/
theorem paired_concat_finish (hfinish : S.isStart e = false)
    (hopen : S.endOf es (S.ident e) = none) {first last : List ε} {s : ε}
    (hsplit : S.starts es = first ++ s :: last) (hident : S.ident s = S.ident e) :
    let pairs := List.map fun s => (s, S.endOf es (S.ident s))
    S.paired es = pairs first ++ (s, none) :: pairs last ∧
      S.paired (es ++ [e]) = pairs first ++ (s, some e) :: pairs last := by
  have hnodup := h.nodup
  rw [hsplit, map_append, map_cons, nodup_middle, nodup_cons, ← map_append,
    hident] at hnodup
  have hother : ∀ t ∈ first ++ last, S.endOf (es ++ [e]) (S.ident t) = S.endOf es (S.ident t) := by
    intro t ht
    rw [endOf_concat_finish hfinish, if_neg, Option.or_none]
    intro heq
    exact hnodup.1 (heq ▸ mem_map_of_mem ht)
  constructor
  · rw [paired, hsplit, map_append, map_cons, hident, hopen]
  · rw [paired, starts_concat_finish hfinish, hsplit, map_append, map_cons,
      endOf_concat_finish hfinish, hident, hopen, if_pos rfl]
    congr 1
    · exact map_congr_left fun t ht => by rw [hother t (mem_append_left _ ht)]
    · congr 1
      exact map_congr_left fun t ht => by rw [hother t (mem_append_right _ ht)]

end

end Identifiers

section Labels

variable [DecidableEq κ]

/-- A start with the label of an end that is not paired yet. -/
def accepts (e : ε) (pair : ε × Option ε) : Bool :=
  S.label pair.1 = S.label e && pair.2.isNone

/-- One event, by labels. -/
def step (pairs : List (ε × Option ε)) (e : ε) : List (ε × Option ε) :=
  if S.isStart e then pairs ++ [(e, none)]
  else modifyLast (S.accepts e) (fun pair => (pair.1, some e)) pairs

def run : List (ε × Option ε) := es.foldl S.step []

variable {S} {es : List ε} {e : ε}

theorem run_concat_start (h : S.isStart e = true) :
    S.run (es ++ [e]) = S.run es ++ [(e, none)] := by
  rw [run, foldl_concat, step, if_pos h, run]

theorem run_concat_finish (h : S.isStart e = false) :
    S.run (es ++ [e]) = modifyLast (S.accepts e) (fun pair => (pair.1, some e)) (S.run es) := by
  rw [run, foldl_concat, step, if_neg (by simp [h]), run]

/-- Ends are taken from the events. -/
theorem mem_of_mem_run {s : ε} (h : (s, some e) ∈ S.run es) : e ∈ es ∧ S.isStart e = false := by
  induction es using reverseRecOn with
  | nil => cases h
  | append_singleton es e' ih =>
    have hearlier (h : (s, some e) ∈ S.run es) : e ∈ es ++ [e'] ∧ S.isStart e = false :=
      ⟨mem_append_left _ (ih h).1, (ih h).2⟩
    cases hstart : S.isStart e' with
    | true =>
      rw [run_concat_start hstart, mem_append, mem_singleton] at h
      rcases h with h | h
      · exact hearlier h
      · cases h
    | false =>
      rw [run_concat_finish hstart] at h
      rcases mem_modifyLast _ h with h | ⟨pair, ⟨⟩⟩
      · exact hearlier h
      · exact ⟨mem_append_right _ mem_cons_self, hstart⟩

theorem map_fst_run (es : List ε) : (S.run es).map Prod.fst = S.starts es := by
  induction es using reverseRecOn with
  | nil => rfl
  | append_singleton es e ih =>
    cases hstart : S.isStart e with
    | true => rw [run_concat_start hstart, starts_concat_start hstart, map_append, ih]; rfl
    | false =>
      rw [run_concat_finish hstart, starts_concat_finish hstart, ← ih]
      rcases last_cases (S.accepts e) (S.run es) with hnone | ⟨l₁, pair, l₂, hsplit, hpair, hl₂⟩
      · rw [modifyLast_of_forall _ hnone]
      · rw [hsplit, modifyLast_append _ hl₂ hpair]
        simp

variable [DecidableEq ι]

/-- The last start with a label whose end has not come yet. -/
def lastOpen (S : Pairing ε ι κ) (es : List ε) (label : κ) : Option ε :=
  (S.starts es).reverse.find? fun s => S.label s = label && (S.endOf es (S.ident s)).isNone

/-- At every end, the last open start with its label has its identifier. -/
def Nested (S : Pairing ε ι κ) (es : List ε) : Prop :=
  ∀ before e after, es = before ++ e :: after → S.isStart e = false →
    ∃ s, S.lastOpen before (S.label e) = some s ∧ S.ident s = S.ident e

theorem nested_concat :
    S.Nested (es ++ [e]) ↔ S.Nested es ∧
      (S.isStart e = false → ∃ s, S.lastOpen es (S.label e) = some s ∧ S.ident s = S.ident e) := by
  constructor
  · intro h
    refine ⟨fun before e' after hes hfinish => ?_, fun hfinish => h es e [] rfl hfinish⟩
    refine h before e' (after ++ [e]) ?_ hfinish
    rw [hes, append_assoc, cons_append]
  · rintro ⟨hes, hlast⟩ before e' after hsplit hfinish
    rcases eq_nil_or_concat after with rfl | ⟨after, e'', rfl⟩
    · obtain ⟨rfl, heq⟩ := append_inj' hsplit rfl
      cases heq
      exact hlast hfinish
    · rw [concat_eq_append, ← cons_append, ← append_assoc] at hsplit
      exact hes before e' after (append_inj' hsplit rfl).1 hfinish

theorem lastOpen_eq_some {label : κ} {s : ε} :
    S.lastOpen es label = some s ↔
      (S.label s = label ∧ S.endOf es (S.ident s) = none) ∧
        ∃ first last, S.starts es = first ++ s :: last ∧
          ∀ t ∈ last, (S.label t = label && (S.endOf es (S.ident t)).isNone) = false := by
  rw [lastOpen, find?_reverse_eq_some, Bool.and_eq_true, decide_eq_true_eq,
    Option.isNone_iff_eq_none]

/-- One end is paired rightly exactly if the last open start with its label is its own. -/
theorem run_concat_finish_iff (h : S.WellFormed es) (hfinish : S.isStart e = false)
    (hmem : S.ident e ∈ (S.starts es).map S.ident) (hopen : S.endOf es (S.ident e) = none) :
    S.run (es ++ [e]) = S.paired (es ++ [e]) ↔
      S.run es = S.paired es ∧
        ∃ s, S.lastOpen es (S.label e) = some s ∧ S.ident s = S.ident e := by
  have hnew : e ∉ es := fun he => by simpa [hfinish] using find?_eq_none.mp hopen e he
  have hfree : ∀ s, (s, some e) ∉ S.run es := fun s hs => hnew (mem_of_mem_run hs).1
  rw [run_concat_finish hfinish]
  constructor
  · obtain ⟨s, hs, hident⟩ := mem_map.mp hmem
    obtain ⟨first, last, hsplit⟩ := append_of_mem hs
    obtain ⟨hbefore, hafter⟩ := paired_concat_finish h hfinish hopen hsplit hident
    rw [hbefore, hafter]
    intro hrun
    rcases last_cases (S.accepts e) (S.run es) with hnone | ⟨l₁, pair, l₂, hpairs, hpair, hl₂⟩
    · -- no start accepts the end, so it is in no pair
      rw [modifyLast_of_forall _ hnone] at hrun
      refine absurd ?_ (hfree s)
      rw [hrun]
      exact mem_append_right _ mem_cons_self
    · rw [hpairs, modifyLast_append _ hl₂ hpair] at hrun
      rw [hpairs] at hfree
      obtain ⟨hlabel, hnone⟩ : S.label pair.1 = S.label e ∧ pair.2 = none := by
        simpa [accepts] using hpair
      -- the end occurs in one pair only, so it was added to its own start
      obtain ⟨rfl, hstart, rfl⟩ := (append_cons_inj_of_notMem
        (fun hin => hfree s (mem_append_left _ hin))
        (fun hin => hfree s (mem_append_right _ (mem_cons_of_mem _ hin)))).mp hrun
      have hpair' : pair.1 = s := (Prod.mk.inj hstart).1
      have heq : pair = (s, none) := Prod.ext hpair' hnone
      refine ⟨by rw [hpairs, heq], s, ?_, hident⟩
      refine lastOpen_eq_some.mpr ⟨⟨hpair' ▸ hlabel, hident ▸ hopen⟩, first, last, hsplit, ?_⟩
      intro t ht
      exact hl₂ _ (mem_map_of_mem ht)
  · rintro ⟨hrun, s, hs, hident⟩
    obtain ⟨⟨hlabel, -⟩, first, last, hsplit, hlast⟩ := lastOpen_eq_some.mp hs
    obtain ⟨hbefore, hafter⟩ := paired_concat_finish h hfinish hopen hsplit hident
    rw [hrun, hbefore, hafter]
    refine modifyLast_append _ (fun pair hpair => ?_) (by simp [accepts, hlabel])
    obtain ⟨t, ht, rfl⟩ := mem_map.mp hpair
    exact hlast t ht

/-- The pairing by labels is the pairing by identifiers exactly if the events are nested. -/
theorem run_eq_paired_iff (h : S.WellFormed es) : S.run es = S.paired es ↔ S.Nested es := by
  induction h with
  | nil => exact iff_of_true rfl fun before e after h => absurd h (by simp)
  | start h hstart hfresh ih =>
    rw [run_concat_start hstart, paired_concat_start h hstart hfresh, append_left_inj, ih,
      nested_concat, hstart]
    simp
  | finish h hfinish hmem hopen ih =>
    rw [run_concat_finish_iff h hfinish hmem hopen, ih, nested_concat]
    simp [hfinish]

end Labels

/-! ### Changing what is neither identifier nor label -/

section Map

variable {S} {f : ε → ε} {es : List ε} (hstart : ∀ e, S.isStart (f e) = S.isStart e)
  (hident : ∀ e, S.ident (f e) = S.ident e) (hlabel : ∀ e, S.label (f e) = S.label e)

include hstart

theorem starts_map : S.starts (es.map f) = (S.starts es).map f := by
  rw [starts, filter_map]
  congr 1
  exact filter_congr fun e _ => hstart e

include hident

variable [DecidableEq ι]

theorem endOf_map (i : ι) : S.endOf (es.map f) i = (S.endOf es i).map f := by
  rw [endOf, find?_map]
  congr 2
  funext e
  rw [Function.comp_apply, hstart, hident]

include hlabel

variable [DecidableEq κ]

theorem lastOpen_map (label : κ) : S.lastOpen (es.map f) label = (S.lastOpen es label).map f := by
  rw [lastOpen, starts_map hstart, ← map_reverse, find?_map]
  congr 2
  funext e
  rw [Function.comp_apply, hlabel, hident, endOf_map hstart hident, Option.isNone_map]

theorem nested_map : S.Nested (es.map f) ↔ S.Nested es := by
  induction es using reverseRecOn with
  | nil => rfl
  | append_singleton es e ih =>
    rw [map_append, map_singleton, nested_concat, nested_concat, ih, hstart, hlabel,
      lastOpen_map hstart hident hlabel]
    simp [hident]

end Map

end Pairing
