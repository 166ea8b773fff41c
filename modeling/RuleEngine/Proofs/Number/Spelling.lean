import Mathlib.Data.List.Basic
import RuleEngine.Number.Text
import RuleEngine.Text.Digits

/-! Digits, and decimals as they are spelled by digits before the point and after it. What the
digits say is the decimal again, without a positive exponent.
-/

namespace RuleEngine

-- --------------------------------------------------------------------------------------
-- Digits
-- --------------------------------------------------------------------------------------

namespace Text

theorem digitsValue_toDigits (n : Nat) : digitsValue (Nat.toDigits 10 n) = n :=
  Nat.ofDigitChars_toDigits (by decide) (by decide)

/-- Leading zeros do not count. -/
theorem digitsValue_zeros_append (count : Nat) (digits : List Char)
    : digitsValue (List.replicate count '0' ++ digits) = digitsValue digits := by
  have zeros : digitsValue (List.replicate count '0') = 0 :=
    (Nat.ofDigitChars_replicate_zero (b := 10)).trans (Nat.mul_zero _)
  have joined : digitsValue (List.replicate count '0' ++ digits)
      = Nat.ofDigitChars 10 digits (digitsValue (List.replicate count '0')) :=
    Nat.ofDigitChars_append 0
  rw [joined, zeros]
  rfl

/-- A run of digits ends where something else follows. -/
theorem spanDigits_append {digits rest : List Char} (run : ∀ c ∈ digits, c.isDigit)
    (ends : ∀ c ∈ rest.head?, c.isDigit = false)
    : spanDigits (digits ++ rest) = (digits, rest) := by
  have stops : rest.takeWhile Char.isDigit = [] ∧ rest.dropWhile Char.isDigit = rest := by
    cases rest with
    | nil => exact ⟨rfl, rfl⟩
    | cons c others => simp [ends c rfl]
  simp [spanDigits, List.takeWhile_append_of_pos run, List.dropWhile_append_of_pos run, stops]

theorem isDigit_of_mem_toDigits {n : Nat} {c : Char} (member : c ∈ Nat.toDigits 10 n)
    : c.isDigit :=
  Nat.isDigit_of_mem_toDigits (by decide) (by decide) member

/-- The digits of a number that is not zero do not begin with a zero, by induction on the number. -/
theorem head?_toDigits_ne {n : Nat} (nonzero : n ≠ 0)
    : (Nat.toDigits 10 n).head? ≠ some '0' := by
  induction n using Nat.strongRecOn with
  | ind n ih =>
    rw [Nat.toDigits_eq_if (by decide)]
    split
    · rename_i small
      intro zero
      have digit := congrArg Char.toNat (Option.some.inj zero)
      rw [Nat.toNat_digitChar_of_lt_ten small] at digit
      exact nonzero (Nat.add_left_cancel digit)
    · have more : n / 10 ≠ 0 := by omega
      rw [List.head?_append_of_ne_nil _ Nat.toDigits_ne_nil]
      exact ih (n / 10) (by omega) more

end Text

namespace Decimal

open Text (digitsValue)

/-- A decimal without a positive exponent. -/
def spelled (d : Decimal) : Decimal :=
  if 0 ≤ d.exponent then ⟨d.digits * Nat.pow 10 d.exponent.toNat, 0⟩ else d

/-- Digits before the point and after it as they may stand in a number: something stands before the
point, and it begins with a zero only if that is all of it.
-/
structure IsSpelling (d : Decimal) (whole fraction : List Char) : Prop where
  digits : ∀ c ∈ whole ++ fraction, c.isDigit
  some? : whole ≠ []
  leading : whole.head? = some '0' → whole = ['0']
  value : (⟨digitsValue (whole ++ fraction), -(fraction.length : Int)⟩ : Decimal) = d

/-- The point, if anything stands behind it. -/
def point : List Char → List Char
  | [] => []
  | fraction => '.' :: fraction

theorem isSpelling_toDigits (n : Nat) : IsSpelling ⟨n, 0⟩ (Nat.toDigits 10 n) [] where
  digits c member := Text.isDigit_of_mem_toDigits (by simpa using member)
  some? := Nat.toDigits_ne_nil
  leading zero := by
    by_cases none : n = 0
    · rw [none]
      rfl
    · exact absurd zero (Text.head?_toDigits_ne none)
  value := by simp [Text.digitsValue_toDigits]

/-- The digits of a number with zeros in front, so that there are more than some places. -/
def padded (n places : Nat) : List Char :=
  List.replicate (places + 1 - (Nat.toDigits 10 n).length) '0' ++ Nat.toDigits 10 n

section

variable {n places : Nat}

theorem lt_length_padded : places < (padded n places).length := by
  simp only [padded, List.length_append, List.length_replicate]
  omega

theorem isDigit_of_mem_padded {c : Char} (member : c ∈ padded n places) : c.isDigit := by
  rcases List.mem_append.mp member with zero | digit
  · rw [List.eq_of_mem_replicate zero]
    rfl
  · exact Text.isDigit_of_mem_toDigits digit

/-- All that stands before the places is one digit, or it does not begin with a zero. -/
theorem leading_padded (some? : places ≠ 0)
    : let whole := (padded n places).take ((padded n places).length - places)
      whole.head? = some '0' → whole = ['0'] := by
  intro whole zero
  by_cases short : (Nat.toDigits 10 n).length ≤ places
  · have one : (padded n places).length - places = 1 := by
      simp only [padded, List.length_append, List.length_replicate]
      omega
    obtain ⟨c, rest, same⟩ := List.exists_cons_of_length_pos
      (Nat.zero_lt_of_lt (lt_length_padded : places < (padded n places).length))
    have single : whole = [c] := by
      simp only [whole, one]
      rw [same]
      rfl
    rw [single] at zero ⊢
    rw [Option.some.inj zero]
  · have same : padded n places = Nat.toDigits 10 n := by
      rw [padded, Nat.sub_eq_zero_of_le (by omega)]
      rfl
    have nonzero : n ≠ 0 := by
      rintro rfl
      exact short (Nat.one_le_iff_ne_zero.mpr some?)
    simp only [whole, same, List.head?_take] at zero
    rw [if_neg (by omega)] at zero
    exact absurd zero (Text.head?_toDigits_ne nonzero)

end

/-- The point is set so that at least one digit stands before it. -/
theorem exists_spelling_pointed (n : Nat) {places : Nat} (some? : places ≠ 0)
    : ∃ whole fraction, IsSpelling ⟨n, -(places : Int)⟩ whole fraction
        ∧ (pointed n places).toList = whole ++ point fraction := by
  have long : places < (padded n places).length := lt_length_padded
  let front := (padded n places).length - places
  have fraction : ((padded n places).drop front).length = places := by
    rw [List.length_drop]
    omega
  refine ⟨(padded n places).take front, (padded n places).drop front, ⟨?_, ?_, ?_, ?_⟩, ?_⟩
  · rw [List.take_append_drop]
    exact fun c => isDigit_of_mem_padded
  · simp only [ne_eq, List.take_eq_nil_iff, not_or]
    exact ⟨by omega, List.ne_nil_of_length_pos (Nat.zero_lt_of_lt long)⟩
  · exact leading_padded some?
  · rw [List.take_append_drop, fraction]
    simp [padded, Text.digitsValue_zeros_append, Text.digitsValue_toDigits]
  · cases after : (padded n places).drop front with
    | nil =>
      rw [after] at fraction
      exact absurd fraction.symm some?
    | cons c rest => simp [pointed, some?, padded, point, ← after, front]

/-- Every decimal is spelled by digits before the point and after it. -/
theorem exists_spelling (d : Decimal)
    : ∃ whole fraction, IsSpelling d.spelled whole fraction
        ∧ d.text.toList = whole ++ point fraction := by
  unfold spelled text
  split
  · refine ⟨_, [], isSpelling_toDigits _, ?_⟩
    simp [point]
  · rename_i negative
    have some? : (-d.exponent).toNat ≠ 0 := by omega
    obtain ⟨whole, fraction, spelling, text⟩ := exists_spelling_pointed d.digits some?
    have same : (⟨d.digits, -((-d.exponent).toNat : Int)⟩ : Decimal) = d := by
      rw [Int.toNat_of_nonneg (by omega), Int.neg_neg]
    exact ⟨whole, fraction, same ▸ spelling, text⟩

end Decimal

end RuleEngine
