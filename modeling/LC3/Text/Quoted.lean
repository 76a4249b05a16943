import LC3.Text.Unprintable

namespace LC3.Text

/-!
# Quoted texts

A text between double quotes, on one line: quotes, backslashes and unprintable characters are
written as escapes, and all other characters as they are.
-/

/-- The hexadecimal digits of a number, without leading zeros, in lower case. -/
def hexNumeral (n : Nat) : List Char :=
  Nat.toDigits 16 n

/-- One character as it stands between quotes. -/
def quoteChar (c : Char) : List Char :=
  match c with
  | '\x00' => ['\\', '0']
  | '\t' => ['\\', 't']
  | '\r' => ['\\', 'r']
  | '\n' => ['\\', 'n']
  | '"' => ['\\', '"']
  | '\\' => ['\\', '\\']
  | c =>
    if isUnprintable c then
      ['\\', 'u', '\x7b'] ++ hexNumeral c.toNat ++ ['\x7d']
    else [c]

/-- A text between double quotes. -/
def quote (text : String) : String :=
  String.ofList (['"'] ++ text.toList.flatMap quoteChar ++ ['"'])

end LC3.Text
