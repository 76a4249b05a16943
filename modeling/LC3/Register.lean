namespace LC3

/-!
# Registers

The machine has eight general registers, `R0` to `R7`.
-/

/-- A general register, by its number. -/
structure Register where
  number : BitVec 3
deriving DecidableEq

namespace Register

/-- The register with a number, for a number below eight. -/
def ofNat? (n : Nat) : Option Register :=
  if n < 8 then some ⟨BitVec.ofNat 3 n⟩ else none

/-- The register that a word names: `R` in either case and one digit below eight. -/
def ofName? (word : String) : Option Register :=
  match word.toList with
  | [letter, digit] =>
    if letter.toUpper = 'R' ∧ digit.isDigit then ofNat? (digit.toNat - '0'.toNat) else none
  | _ => none

instance : ToString Register where
  toString register := "R" ++ toString register.number.toNat

end Register

end LC3
