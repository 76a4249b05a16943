import LC3.Text.Numeral

namespace LC3

/-!
# Machine words

The machine stores and addresses 16-bit words. Arithmetic on them wraps.
-/

/-- A 16-bit machine word; an address is one too. -/
abbrev Word := BitVec 16

namespace Word

/-- The number of words that there are. -/
def count : Nat := 65536

/-- The four hexadecimal digits of a word, most significant first. -/
def hexDigits (w : Word) : List Char :=
  [Text.hexDigit (w.extractLsb' 12 4).toNat, Text.hexDigit (w.extractLsb' 8 4).toNat,
    Text.hexDigit (w.extractLsb' 4 4).toNat, Text.hexDigit (w.extractLsb' 0 4).toNat]

@[simp] theorem length_hexDigits (w : Word) : w.hexDigits.length = 4 := rfl

/-- A word as it is written in records: `x3000`. -/
def toHexLiteral (w : Word) : String :=
  String.ofList ('x' :: w.hexDigits)

end Word

end LC3
