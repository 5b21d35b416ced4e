import Mathlib.Data.List.Basic
import Mathlib.Tactic.IntervalCases
import NemoRelay.Lib.Hex

/-!
# JSON string literals

The text of a string in compact JSON: quotation mark, backslash and control characters are
escaped, everything else stands for itself. A literal ends where its closing mark is read, so the
literals of several strings one after another determine the strings.
-/

namespace JsonText

open List

/-- The quotation mark. -/
def mark : Char := '\x22'

def backslash : Char := '\x5c'

def escapeChar (c : Char) : List Char :=
  if c = mark then [backslash, mark]
  else if c = backslash then [backslash, backslash]
  else if c = '\x08' then [backslash, 'b']
  else if c = '\t' then [backslash, 't']
  else if c = '\n' then [backslash, 'n']
  else if c = '\x0c' then [backslash, 'f']
  else if c = '\r' then [backslash, 'r']
  else if c.toNat < 32 then
    [backslash, 'u', '0', '0', Hex.digit (c.toNat / 16), Hex.digit (c.toNat % 16)]
  else [c]

def escape (text : List Char) : List Char := text.flatMap escapeChar

def quote (text : List Char) : List Char := mark :: escape text ++ [mark]

/-! ### Reading back -/

/-- The character that the letter of a short escape stands for. -/
def shortEscape (c : Char) : Char :=
  if c = 'b' then '\x08'
  else if c = 't' then '\t'
  else if c = 'n' then '\n'
  else if c = 'f' then '\x0c'
  else if c = 'r' then '\r'
  else c

/-- The first character of an escaped text, and the rest. -/
def unescapeChar : List Char → Option (Char × List Char)
  | [] => none
  | c :: text =>
    if c = backslash then
      match text with
      | 'u' :: '0' :: '0' :: high :: low :: rest =>
        (Hex.read 0 [high, low]).map fun code => (Char.ofNat code, rest)
      | letter :: rest => some (shortEscape letter, rest)
      | [] => none
    else some (c, text)

theorem unescapeChar_escapeChar (c : Char) (rest : List Char) :
    unescapeChar (escapeChar c ++ rest) = some (c, rest) := by
  by_cases hcontrol : c.toNat < 32
  · have hc : c = Char.ofNat c.toNat := by simp
    generalize c.toNat = n at hcontrol hc
    subst hc
    interval_cases n <;> rfl
  · by_cases hmark : c = mark
    · subst hmark
      rfl
    by_cases hback : c = backslash
    · subst hback
      rfl
    have hplain : escapeChar c = [c] := by
      have hne : ∀ d : Char, d.toNat < 32 → c ≠ d := by
        rintro d hd rfl
        exact hcontrol hd
      simp only [escapeChar, if_neg hmark, if_neg hback, if_neg hcontrol,
        if_neg (hne '\x08' (by decide)), if_neg (hne '\t' (by decide)),
        if_neg (hne '\n' (by decide)), if_neg (hne '\x0c' (by decide)),
        if_neg (hne '\r' (by decide))]
    rw [hplain]
    exact if_neg hback

variable {rest' rest : List Char}

theorem escapeChar_append_inj {c d : Char} (h : escapeChar c ++ rest = escapeChar d ++ rest') :
    c = d ∧ rest = rest' := by
  have hread := congrArg unescapeChar h
  rw [unescapeChar_escapeChar, unescapeChar_escapeChar, Option.some_inj, Prod.mk.injEq] at hread
  exact hread

/-- No escape starts with a quotation mark. -/
theorem escapeChar_append_ne_mark (c : Char) (rest rest' : List Char) :
    escapeChar c ++ rest ≠ mark :: rest' := by
  intro h
  have hread := congrArg unescapeChar h
  have hmark : unescapeChar (mark :: rest') = some (mark, rest') := rfl
  rw [unescapeChar_escapeChar, hmark, Option.some_inj] at hread
  obtain ⟨rfl, rfl⟩ := hread
  have hhead : some backslash = some mark := congrArg List.head? h
  exact absurd hhead (by decide)

variable {text text' : List Char}

theorem escape_mark_inj (h : escape text ++ mark :: rest = escape text' ++ mark :: rest') :
    text = text' ∧ rest = rest' := by
  induction text generalizing text' with
  | nil =>
    cases text' with
    | nil => exact ⟨rfl, by simpa [escape] using h⟩
    | cons d text' =>
      rw [escape, escape, flatMap_nil, flatMap_cons, append_assoc] at h
      exact absurd h.symm (escapeChar_append_ne_mark d _ _)
  | cons c text ih =>
    cases text' with
    | nil =>
      rw [escape, escape, flatMap_nil, flatMap_cons, append_assoc] at h
      exact absurd h (escapeChar_append_ne_mark c _ _)
    | cons d text' =>
      rw [escape, escape, flatMap_cons, flatMap_cons, append_assoc, append_assoc] at h
      obtain ⟨rfl, hrest⟩ := escapeChar_append_inj h
      obtain ⟨rfl, hrest'⟩ := ih hrest
      exact ⟨rfl, hrest'⟩

/-- What follows a literal can be told from it. -/
theorem quote_append_inj (h : quote text ++ rest = quote text' ++ rest') :
    text = text' ∧ rest = rest' := by
  apply escape_mark_inj
  simpa [quote] using h

end JsonText
