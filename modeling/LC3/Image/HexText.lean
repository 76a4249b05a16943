import LC3.Image
import LC3.Text.Blank
import LC3.Text.Bytes
import LC3.Text.Split

namespace LC3.Image

/-!
# The text format

An image as text: each word on a line of its own, as four hexadecimal digits. When a text is read,
blank lines are skipped, and so is what follows two slashes on a line.
-/

/-- An image as text. -/
def toText (image : Image) : String :=
  String.ofList (image.words.flatMap fun word => word.hexDigits ++ ['\n'])

/-- A line up to its first two slashes. -/
def withoutComment : List Char → List Char
  | [] => []
  | '/' :: '/' :: _ => []
  | c :: line => c :: withoutComment line

/-- The value of a hexadecimal numeral, in front of which a plus sign may stand. -/
def numeralValue? : List Char → Option Nat
  | '+' :: digits => Text.hexValue? digits
  | digits => Text.hexValue? digits

/-- The word that a numeral of four bytes stands for. -/
def wordOfNumeral? (numeral : List Char) : Option Word :=
  if Text.byteLength numeral = 4 then (numeralValue? numeral).map (BitVec.ofNat 16)
  else none

/-- The numerals of a text. -/
def numerals (text : List Char) : List (List Char) :=
  ((Text.split '\n' text).map fun line => Text.trim (withoutComment line)).filter (· ≠ [])

/-- The image that a text holds. -/
def ofText? (text : String) : Option Image :=
  ((numerals text.toList).mapM wordOfNumeral?).map Image.mk

end LC3.Image
