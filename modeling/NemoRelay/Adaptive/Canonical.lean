import NemoRelay.Adaptive.PromptIr
import NemoRelay.Lib.Delimited
import NemoRelay.Lib.JsonText

/-!
# Canonical texts and digests

The canonical text of a value and the digest of a text come from libraries. `Rfc8785` and `Sha256`
say what is assumed of them. `plain` satisfies both: it writes a value with a mark for each
constructor and a numeral of fixed width for each number, and takes the numerals of all characters
as the digest.
-/

namespace NemoRelay.Acg

open List

open JsonText (mark quote quote_append_inj)

open Json
open String (ofList toList_append toList_injective toList_ofList)

/-- The texts of objects. -/
def objectTexts (text : Json → String) : Set Text :=
  { written | ∃ entries, (text (.obj entries)).toList = written }

/-- The canonical text of every value exists. Two values have the same text if they agree up to the
spelling of numbers, which are doubles. The texts of objects are not empty, and none is the
beginning of another. -/
structure Rfc8785 [Canonicalization] (text : Json → String) : Prop where
  canonicalizer_eq : ∀ value, Canonicalization.canonicalizer value = .ok (text value)
  same_iff : ∀ value value', text value = text value' ↔ value.asDoubles = value'.asDoubles
  nonempty : [] ∉ objectTexts text
  delimited : Coding.Delimited (objectTexts text)

/-- Digests of different texts differ. A digest is written in hexadecimal after `sha256:`. -/
structure Sha256 [Canonicalization] : Prop where
  injective : Function.Injective sha256Hex
  shape : ∀ input, ∃ digits : String, sha256Hex input = "sha256:" ++ digits ∧ '=' ∉ digits.toList

section Assumptions

variable [Canonicalization] {text : Json → String}

theorem Rfc8785.canonicalizeValue_eq (htext : Rfc8785 text) (value : Json) :
    canonicalizeValue value = .ok (text value) := by
  rw [canonicalizeValue, htext.canonicalizer_eq]
  rfl

theorem Sha256.ne (hsha : Sha256) {constant : String}
    (h : ¬ "sha256:".toList <+: constant.toList) (input : String) : sha256Hex input ≠ constant := by
  rintro rfl
  obtain ⟨digits, hdigits, -⟩ := hsha.shape input
  refine h ⟨digits.toList, ?_⟩
  rw [hdigits, toList_append]

theorem Sha256.equals_notMem (hsha : Sha256) (input : String) : '=' ∉ (sha256Hex input).toList := by
  obtain ⟨digits, hdigits, hnot⟩ := hsha.shape input
  rw [hdigits, toList_append, mem_append]
  rintro (h | h)
  · exact absurd h (by decide)
  · exact hnot h

end Assumptions

/-! ### Plain texts -/

mutual

/-- A text from which a value can be read back, up to the spelling of numbers. -/
def plainText : Json → Text
  | .null => ['n']
  | .bool true => ['t']
  | .bool false => ['f']
  | .num value => '#' :: Hex.digits 16 value.asF64.bits.toNat
  | .str value => JsonText.quote value.toList
  | .arr items => '[' :: plainItems items
  | .obj entries => '\x7b' :: plainEntries entries

def plainItems : List Json → Text
  | [] => [']']
  | item :: items => ',' :: plainText item ++ plainItems items

def plainEntries : List (String × Json) → Text
  | [] => ['\x7d']
  | entry :: entries => ',' :: plainEntry entry ++ plainEntries entries

def plainEntry : String × Json → Text
  | (key, value) => JsonText.quote key.toList ++ plainText value

end

variable {rest rest' : Text}

theorem plainItems_inj {items items' : List Json}
    (ih : ∀ item ∈ items, ∀ item' rest rest', plainText item ++ rest = plainText item' ++ rest' →
      item.asDoubles = item'.asDoubles ∧ rest = rest')
    (h : plainItems items ++ rest = plainItems items' ++ rest') :
    items.map asDoubles = items'.map asDoubles ∧ rest = rest' := by
  induction items generalizing items' with
  | nil =>
    cases items' with
    | nil => exact ⟨rfl, append_cancel_left h⟩
    | cons item' items' => simp [plainItems] at h
  | cons item items hitems =>
    cases items' with
    | nil => simp [plainItems] at h
    | cons item' items' =>
      rw [forall_mem_cons] at ih
      simp only [plainItems, cons_append, append_assoc, List.cons.injEq, true_and] at h
      obtain ⟨hitem, h⟩ := ih.1 item' _ _ h
      obtain ⟨hrest, h⟩ := hitems ih.2 h
      exact ⟨by rw [map_cons, map_cons, hitem, hrest], h⟩

theorem plainEntries_inj {entries entries' : Object}
    (ih : ∀ entry ∈ entries, ∀ value rest rest',
      plainText entry.2 ++ rest = plainText value ++ rest' →
      entry.2.asDoubles = value.asDoubles ∧ rest = rest')
    (h : plainEntries entries ++ rest = plainEntries entries' ++ rest') :
    (entries.map fun entry => (entry.1, entry.2.asDoubles)) =
      (entries'.map fun entry => (entry.1, entry.2.asDoubles)) ∧ rest = rest' := by
  induction entries generalizing entries' with
  | nil =>
    cases entries' with
    | nil => exact ⟨rfl, append_cancel_left h⟩
    | cons entry' entries' => simp [plainEntries] at h
  | cons entry entries hentries =>
    cases entries' with
    | nil => simp [plainEntries] at h
    | cons entry' entries' =>
      obtain ⟨key, value⟩ := entry
      obtain ⟨key', value'⟩ := entry'
      rw [forall_mem_cons] at ih
      simp only [plainEntries, plainEntry, cons_append, append_assoc, List.cons.injEq,
        true_and] at h
      obtain ⟨hkey, h⟩ := quote_append_inj h
      obtain ⟨hvalue, h⟩ := ih.1 value' _ _ h
      obtain ⟨hrest, h⟩ := hentries ih.2 h
      refine ⟨?_, h⟩
      rw [map_cons, map_cons, hrest, hvalue, toList_injective hkey]

/-- A numeral of fixed width and what follows it. -/
theorem digits_append_inj {k n n' : Nat} (hn : n < 16 ^ k) (hn' : n' < 16 ^ k)
    (h : Hex.digits k n ++ rest = Hex.digits k n' ++ rest') : n = n' ∧ rest = rest' := by
  obtain ⟨hdigits, hrest⟩ := append_inj h (by rw [Hex.length_digits, Hex.length_digits])
  refine ⟨?_, hrest⟩
  have hread := congrArg (Hex.read 0) hdigits
  rwa [Hex.read_digits_of_lt hn, Hex.read_digits_of_lt hn', Option.some_inj] at hread

theorem F64.ext_toNat {f f' : F64} (h : f.bits.toNat = f'.bits.toNat) : f = f' := by
  cases f
  cases f'
  simpa [BitVec.toNat_inj] using h

/-- What follows the text of a value can be told from it. -/
theorem plainText_inj (value value' : Json) (rest rest' : Text)
    (h : plainText value ++ rest = plainText value' ++ rest') :
    value.asDoubles = value'.asDoubles ∧ rest = rest' := by
  induction value using induction generalizing value' rest rest' with
  | null => cases value' with
    | null => exact ⟨rfl, append_cancel_left h⟩
    | bool b => cases b <;> simp [plainText] at h
    | num | str | arr | obj => simp [plainText, quote, mark] at h
  | bool b => cases value' with
    | bool b' =>
      cases b <;> cases b' <;> simp [plainText] at h
      all_goals exact ⟨rfl, h⟩
    | null | num | str | arr | obj =>
      cases b <;> simp [plainText, quote, mark] at h
  | num n => cases value' with
    | num n' =>
      simp only [plainText, cons_append, List.cons.injEq, true_and] at h
      obtain ⟨hbits, hrest⟩ := digits_append_inj (BitVec.isLt _) (BitVec.isLt _) h
      exact ⟨by rw [asDoubles, asDoubles, F64.ext_toNat hbits], hrest⟩
    | bool b => cases b <;> simp [plainText] at h
    | null | str | arr | obj => simp [plainText, quote, mark] at h
  | str s => cases value' with
    | str s' =>
      obtain ⟨htext, hrest⟩ := quote_append_inj h
      exact ⟨by rw [toList_injective htext], hrest⟩
    | bool b => cases b <;> simp [plainText, quote, mark] at h
    | null | num | arr | obj => simp [plainText, quote, mark] at h
  | arr items ih => cases value' with
    | arr items' =>
      simp only [plainText, cons_append, List.cons.injEq, true_and] at h
      obtain ⟨hitems, hrest⟩ := plainItems_inj ih h
      exact ⟨by rw [asDoubles_arr, asDoubles_arr, hitems], hrest⟩
    | bool b => cases b <;> simp [plainText] at h
    | null | num | str | obj => simp [plainText, quote, mark] at h
  | obj entries ih => cases value' with
    | obj entries' =>
      simp only [plainText, cons_append, List.cons.injEq, true_and] at h
      obtain ⟨hentries, hrest⟩ := plainEntries_inj ih h
      exact ⟨by rw [asDoubles_obj, asDoubles_obj, hentries], hrest⟩
    | bool b => cases b <;> simp [plainText] at h
    | null | num | str | arr => simp [plainText, quote, mark] at h

theorem plainText_asDoubles (value : Json) : plainText value.asDoubles = plainText value := by
  induction value using induction with
  | null | bool | num | str => rfl
  | arr items ih =>
    rw [asDoubles_arr, plainText]
    congr 1
    induction items with
    | nil => rfl
    | cons item items hitems =>
      rw [forall_mem_cons] at ih
      rw [map_cons, plainItems, plainItems, ih.1, hitems ih.2]
  | obj entries ih =>
    rw [asDoubles_obj, plainText]
    congr 1
    induction entries with
    | nil => rfl
    | cons entry entries hentries =>
      rw [forall_mem_cons] at ih
      rw [map_cons, plainEntries, plainEntries, plainEntry, plainEntry, ih.1, hentries ih.2]

/-- The numerals of all characters, one after another. -/
def plainDigest (input : String) : String :=
  "sha256:" ++ ofList (input.toList.flatMap fun c => Hex.digits 8 c.toNat)

/-- Libraries that keep everything. -/
@[reducible] def plain : Canonicalization where
  canonicalizer value := .ok (ofList (plainText value))
  printJson value := ofList (plainText value)
  sha256Hex := plainDigest

theorem rfc8785_plain : @Rfc8785 plain fun value => ofList (plainText value) :=
  letI := plain
  { canonicalizer_eq := fun _ => rfl
    same_iff := by
      intro value value'
      rw [String.ofList_inj]
      constructor
      · intro h
        exact (plainText_inj value value' [] [] (by rw [h])).1
      · intro h
        rw [← plainText_asDoubles, h, plainText_asDoubles]
    nonempty := by
      rintro ⟨entries, h⟩
      simp [plainText] at h
    delimited := by
      rintro _ ⟨entries, rfl⟩ _ ⟨entries', rfl⟩ rest rest' h
      simp only [toList_ofList] at h ⊢
      exact (append_left_inj _).mp ((plainText_inj _ _ _ _ h).2 ▸ h) }

theorem chars_inj {input input' : Text}
    (h : (input.flatMap fun c => Hex.digits 8 c.toNat) =
      input'.flatMap fun c => Hex.digits 8 c.toNat) : input = input' := by
  have hpos : ∀ n, Hex.digits 8 n ≠ [] := fun n hn => by
    simpa [hn] using Hex.length_digits 8 n
  induction input generalizing input' with
  | nil =>
    cases input' with
    | nil => rfl
    | cons c' input' => simp [hpos] at h
  | cons c input ih =>
    cases input' with
    | nil => simp [hpos] at h
    | cons c' input' =>
      obtain ⟨hcode, hrest⟩ := digits_append_inj c.val.toNat_lt c'.val.toNat_lt h
      rw [Char.toNat_inj.mp hcode, ih hrest]

theorem sha256_plain : @Sha256 plain :=
  letI := plain
  { injective := by
      intro input input' h
      have hlist := congrArg String.toList h
      simp only [sha256Hex, plainDigest, toList_append, toList_ofList] at hlist
      exact toList_injective (chars_inj (append_cancel_left hlist))
    shape := by
      intro input
      refine ⟨_, rfl, ?_⟩
      rw [toList_ofList, mem_flatMap]
      rintro ⟨c, -, hc⟩
      exact Hex.not_mem_digits (by decide) 8 _ hc }

end NemoRelay.Acg
