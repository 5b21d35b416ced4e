import Mathlib.Tactic.Ring

/-!
# Fixed-width hexadecimal

Lower-case hexadecimal numerals of a fixed number of digits, most significant digit first, and the
reader that inverts them.
-/

namespace Hex

open List

def digit : Nat → Char
  | 0 => '0' | 1 => '1' | 2 => '2' | 3 => '3' | 4 => '4' | 5 => '5' | 6 => '6' | 7 => '7'
  | 8 => '8' | 9 => '9' | 10 => 'a' | 11 => 'b' | 12 => 'c' | 13 => 'd' | 14 => 'e' | _ => 'f'

def value (c : Char) : Option Nat :=
  if '0' ≤ c ∧ c ≤ '9' then some (c.toNat - '0'.toNat)
  else if 'a' ≤ c ∧ c ≤ 'f' then some (c.toNat - 'a'.toNat + 10)
  else none

/-- The last `k` hexadecimal digits of `n`. -/
def digits : Nat → Nat → List Char
  | 0, _ => []
  | k + 1, n => digits k (n / 16) ++ [digit (n % 16)]

/-- The last `k` bytes of `n`, most significant first. -/
def bytes : Nat → Nat → List Nat
  | 0, _ => []
  | k + 1, n => bytes k (n / 256) ++ [n % 256]

/-- Read digits after the digits of `acc`. A character that is no digit makes the whole
numeral invalid. -/
def read : Nat → List Char → Option Nat
  | acc, [] => some acc
  | acc, c :: cs => (value c).bind fun v => read (16 * acc + v) cs

/-! ### Digits -/

theorem value_digit {d : Nat} (hd : d < 16) : value (digit d) = some d := by
  have h : ∀ d < 16, value (digit d) = some d := by decide
  exact h d hd

variable (k n : Nat)

theorem length_digits : (digits k n).length = k := by
  induction k generalizing n with
  | zero => rfl
  | succ k ih => rw [digits, length_append, ih, length_singleton]

theorem mod_pow_succ (b k n : Nat) : n % b ^ (k + 1) = b * (n / b % b ^ k) + n % b := by
  rw [Nat.pow_succ, Nat.mul_comm, Nat.mod_mul, Nat.add_comm]

/-- Higher digits than the ones written do not matter. -/
theorem digits_mod : digits k (n % 16 ^ k) = digits k n := by
  induction k generalizing n with
  | zero => rfl
  | succ k ih =>
    have hmod := mod_pow_succ 16 k n
    have hdiv : n % 16 ^ (k + 1) / 16 = n / 16 % 16 ^ k := by omega
    have hlow : n % 16 ^ (k + 1) % 16 = n % 16 := by omega
    rw [digits, digits, hdiv, hlow, ih]

theorem digit_ne {d : Nat} {c : Char} (hc : value c = none) (hd : d < 16) : digit d ≠ c := by
  intro h
  rw [← h, value_digit hd] at hc
  cases hc

/-- A character that is no digit does not occur in a numeral. -/
theorem not_mem_digits {c : Char} (hc : value c = none) (k n : Nat) : c ∉ digits k n := by
  induction k generalizing n with
  | zero => exact not_mem_nil
  | succ k ih =>
    rw [digits, mem_append, mem_singleton]
    rintro (h | h)
    · exact ih _ h
    · exact digit_ne hc (Nat.mod_lt _ (by decide)) h.symm

/-! ### Reading inverts writing -/

theorem read_append (acc : Nat) (as bs : List Char) :
    read acc (as ++ bs) = (read acc as).bind fun m => read m bs := by
  induction as generalizing acc with
  | nil => rfl
  | cons a as ih =>
    rw [cons_append, read, read]
    cases value a with
    | none => rfl
    | some v => exact ih _

theorem read_digits (acc k n : Nat) : read acc (digits k n) = some (16 ^ k * acc + n % 16 ^ k) := by
  induction k generalizing n with
  | zero => simp [digits, read, Nat.mod_one]
  | succ k ih =>
    have hmod := mod_pow_succ 16 k n
    rw [digits, read_append, ih, Option.bind_some, read, value_digit (Nat.mod_lt _ (by decide)),
      Option.bind_some, read, hmod, Nat.pow_succ]
    congr 1
    ring

/-- **Round trip**: a numeral wide enough for `n` reads back as `n`. -/
theorem read_digits_of_lt {k n : Nat} (h : n < 16 ^ k) : read 0 (digits k n) = some n := by
  rw [read_digits, Nat.mod_eq_of_lt h, Nat.mul_zero, Nat.zero_add]

/-! ### Bytes -/

/-- Writing byte by byte is the same as writing the whole number. -/
theorem flatMap_digits_bytes : (bytes k n).flatMap (digits 2) = digits (2 * k) n := by
  induction k generalizing n with
  | zero => rfl
  | succ k ih =>
    have hdiv : n / 16 / 16 = n / 256 := by rw [Nat.div_div_eq_div_mul]
    have hhigh : n % 256 / 16 % 16 = n / 16 % 16 := by omega
    rw [bytes, flatMap_append, ih, Nat.mul_succ, digits, digits, hdiv]
    simp [digits, hhigh]

theorem length_bytes : (bytes k n).length = k := by
  induction k generalizing n with
  | zero => rfl
  | succ k ih => rw [bytes, length_append, ih, length_singleton]

/-- The low bytes of a number are the tail of its bytes. -/
theorem drop_bytes (j k n : Nat) : (bytes (j + k) n).drop j = bytes k n := by
  induction k generalizing n with
  | zero =>
    apply drop_eq_nil_of_le
    rw [length_bytes]
    exact Nat.le_refl j
  | succ k ih =>
    have hle : j ≤ (bytes (j + k) (n / 256)).length := by rw [length_bytes]; omega
    rw [← Nat.add_assoc, bytes, drop_append_of_le_length hle, ih, bytes]

theorem any_bytes_ne_zero : (bytes k n).any (fun b => b != 0) = true ↔ n % 256 ^ k ≠ 0 := by
  induction k generalizing n with
  | zero => simp [bytes, Nat.mod_one]
  | succ k ih =>
    have hmod := mod_pow_succ 256 k n
    rw [bytes, any_append, Bool.or_eq_true, ih]
    simp only [any_cons, any_nil, Bool.or_false, bne_iff_ne]
    omega

end Hex
