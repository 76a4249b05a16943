import LC3.Line
import Mathlib.Tactic.Common

namespace LC3

/-!
# Numerals and their values

The texts of numbers are read digit by digit, decimal ones with a check at each digit. What is read
is the positional value of the digits, and a check on the way is as good as one at the end.

* `Text.Numeral` — a text of digits of a base and its value.
* `Line.HexNumber` — a word that is a hexadecimal number, of any size.
* `Line.DecimalNumber` — a text that is a decimal number, of any size.
-/

namespace Text

/-- A text of digits of a base, that follow digits worth `high`, with its positional value. -/
def Numeral (base : Nat) (digit? : Char → Option Nat) (high : Nat) (text : List Char)
    (value : Nat) : Prop :=
  ∃ digits : List Nat, text.map digit? = digits.map some ∧
    digits.foldl (fun high digit => high * base + digit) high = value

variable {base high value : Nat} {digit? : Char → Option Nat} {c : Char} {text : List Char}

/-- Without digits, the value is what has been read before. -/
theorem numeral_nil_iff : Numeral base digit? high [] value ↔ high = value := by
  constructor
  · rintro ⟨digits, hdigits, rfl⟩
    obtain rfl := List.map_eq_nil_iff.mp hdigits.symm
    rfl
  · rintro rfl
    exact ⟨[], rfl, rfl⟩

/-- A digit counts as many times the base as digits follow. -/
theorem numeral_cons_iff :
    Numeral base digit? high (c :: text) value ↔
      ∃ digit, digit? c = some digit ∧ Numeral base digit? (high * base + digit) text value := by
  constructor
  · rintro ⟨_ | ⟨digit, digits⟩, hdigits, rfl⟩
    · cases hdigits
    · obtain ⟨hdigit, hrest⟩ := List.cons.inj hdigits
      exact ⟨digit, hdigit, digits, hrest, rfl⟩
  · rintro ⟨digit, hdigit, digits, hrest, rfl⟩
    exact ⟨digit :: digits, congrArg₂ List.cons hdigit hrest, rfl⟩

/-- More digits never make a number smaller. -/
theorem Numeral.le (hbase : 0 < base) (h : Numeral base digit? high text value) : high ≤ value := by
  induction text generalizing high with
  | nil => exact Nat.le_of_eq (numeral_nil_iff.mp h)
  | cons c text ih =>
    obtain ⟨digit, -, hrest⟩ := numeral_cons_iff.mp h
    have hstep : high ≤ high * base + digit :=
      Nat.le_add_right_of_le (Nat.le_mul_of_pos_right _ hbase)
    exact Nat.le_trans hstep (ih hrest)

/-- Hexadecimal digits are read to the value that they have. -/
theorem hexValueFrom?_eq_some_iff :
    hexValueFrom? high text = some value ↔ Numeral 16 hexDigitValue? high text value := by
  induction text generalizing high with
  | nil => rw [hexValueFrom?, numeral_nil_iff, Option.some_inj]
  | cons c text ih =>
    rw [hexValueFrom?, numeral_cons_iff]
    show (hexDigitValue? c).bind _ = _ ↔ _
    rw [Option.bind_eq_some_iff]
    exact exists_congr fun digit => and_congr_right fun _ => ih

/-- A hexadecimal number has at least one digit. -/
theorem hexValue?_eq_some_iff :
    hexValue? text = some value ↔ text ≠ [] ∧ Numeral 16 hexDigitValue? 0 text value := by
  unfold hexValue?
  cases text with
  | nil => simp
  | cons c text => simp [hexValueFrom?_eq_some_iff]

end Text

namespace Line

/-- A word made of `x` or `X` and one or more hexadecimal digits, with their value. -/
def HexNumber (word : String) (value : Nat) : Prop :=
  ∃ letter digits, word.toList = letter :: digits ∧ (letter = 'x' ∨ letter = 'X') ∧
    digits ≠ [] ∧ Text.Numeral 16 Text.hexDigitValue? 0 digits value

/-- A text of decimal digits alone, with their value. -/
def DecimalNumber (text : String) (value : Nat) : Prop :=
  Text.Numeral 10 Text.digitValue? 0 text.toList value

/-- The digits of a word are found behind its `x` in either case. -/
private theorem hexDigits?_eq_some_iff {text digits : List Char} :
    hexDigits? text = some digits ↔
      ∃ letter, text = letter :: digits ∧ (letter = 'x' ∨ letter = 'X') := by
  constructor
  · intro h
    unfold hexDigits? at h
    split at h
    · exact ⟨'x', congrArg _ (Option.some.inj h), .inl rfl⟩
    · exact ⟨'X', congrArg _ (Option.some.inj h), .inr rfl⟩
    · cases h
  · rintro ⟨letter, rfl, rfl | rfl⟩ <;> rfl

/-- A word is read as a hexadecimal number if it has the form of one. -/
theorem hexValue_eq_some_iff {word : String} {value : Nat} :
    (hexDigits? word.toList).bind Text.hexValue? = some value ↔ HexNumber word value := by
  rw [Option.bind_eq_some_iff]
  constructor
  · rintro ⟨digits, hdigits, hvalue⟩
    obtain ⟨letter, hword, hletter⟩ := hexDigits?_eq_some_iff.mp hdigits
    exact ⟨letter, digits, hword, hletter, Text.hexValue?_eq_some_iff.mp hvalue⟩
  · rintro ⟨letter, digits, hword, hletter, hvalue⟩
    exact ⟨digits, hexDigits?_eq_some_iff.mpr ⟨letter, hword, hletter⟩,
      Text.hexValue?_eq_some_iff.mpr hvalue⟩

/-- **Checking at each digit is checking at the end.** Decimal digits are accepted exactly if they
    are digits and their value fits a word. -/
theorem decimalValueFrom_eq_ok_iff {high value : Nat} {text : List Char}
    (hhigh : high < Word.count) :
    decimalValueFrom high text = .ok value ↔
      Text.Numeral 10 Text.digitValue? high text value ∧ value < Word.count := by
  induction text generalizing high with
  | nil =>
    rw [decimalValueFrom, Text.numeral_nil_iff]
    constructor
    · intro h
      obtain rfl := Except.ok.inj h
      exact ⟨rfl, hhigh⟩
    · rintro ⟨rfl, -⟩
      rfl
  | cons c text ih =>
    rw [decimalValueFrom, Text.numeral_cons_iff]
    cases hdigit : Text.digitValue? c with
    | none => simp
    | some digit =>
      show (if high * 10 + digit < Word.count then _ else _) = _ ↔ _
      split
      case isTrue hfits => rw [ih hfits]; simp
      case isFalse hfits =>
        -- the digits that follow cannot bring the value back into a word
        constructor
        · intro h
          cases h
        · rintro ⟨⟨digit', hdigit', hrest⟩, hvalue⟩
          obtain rfl := Option.some.inj hdigit'
          exact absurd (Nat.lt_of_le_of_lt (hrest.le (by decide)) hvalue) hfits

end Line

end LC3
