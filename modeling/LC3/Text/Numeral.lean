namespace LC3.Text

/-!
# Numerals

Reading and writing of digits. Letters and digits are those of ASCII, in either case; the value of
a numeral is not bounded here.

* `digitValue?`, `hexDigitValue?` — what one character is worth.
* `hexValue?` — the value of a text made of hexadecimal digits alone.
* `hexDigit` — the upper-case digit of a value below 16.
-/

/-- The value of a decimal digit. -/
def digitValue? (c : Char) : Option Nat :=
  if c.isDigit then some (c.toNat - '0'.toNat) else none

/-- The value of a hexadecimal digit in either case. -/
def hexDigitValue? (c : Char) : Option Nat :=
  if c.isDigit then some (c.toNat - '0'.toNat)
  else if 'a' ≤ c ∧ c ≤ 'f' then some (c.toNat - 'a'.toNat + 10)
  else if 'A' ≤ c ∧ c ≤ 'F' then some (c.toNat - 'A'.toNat + 10)
  else none

/-- The value of a text of hexadecimal digits that follow digits worth `high`. -/
def hexValueFrom? (high : Nat) : List Char → Option Nat
  | [] => some high
  | c :: text => do
    let digit ← hexDigitValue? c
    hexValueFrom? (high * 16 + digit) text

/-- The value of a text of one or more hexadecimal digits. -/
def hexValue? (text : List Char) : Option Nat :=
  if text.isEmpty then none else hexValueFrom? 0 text

/-- The upper-case hexadecimal digit of a value below 16. -/
def hexDigit (value : Nat) : Char :=
  if value < 10 then Char.ofNat ('0'.toNat + value) else Char.ofNat ('A'.toNat + (value - 10))

/-- The digit of a value has that value. -/
theorem hexDigitValue?_hexDigit {value : Nat} (h : value < 16) :
    hexDigitValue? (hexDigit value) = some value := by
  revert value
  decide

end LC3.Text
