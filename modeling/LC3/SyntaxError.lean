import LC3.Directive
import LC3.Token

namespace LC3

/-!
# Syntax errors

Why a line of source is not a line of assembly, with the wording of each reason.
-/

/-- A reason why a line cannot be read. -/
inductive SyntaxError where
  /-- Something was required and something else was found. -/
  | unexpectedToken (expected : String) (found : TokenKind)
  /-- A word in the place of an instruction names none. -/
  | unknownInstruction (word : String)
  /-- A word behind a period names no directive. -/
  | unknownDirective (word : String)
  /-- The mnemonic of a branch has a flag twice. -/
  | repeatedFlag (letter : Char)
  /-- A decimal number has a character that is no digit. -/
  | invalidNumber
  /-- A number does not fit a word. -/
  | numberTooLarge
deriving DecidableEq

namespace SyntaxError

/-- What is wrong. -/
def message : SyntaxError → String
  | unexpectedToken expected found => s!"expected {expected}, found {found.description}"
  | unknownInstruction word => s!"unknown instruction `{word}`"
  | unknownDirective word => s!"unknown directive `.{word}`"
  | repeatedFlag letter => s!"branch flag `{letter}` appears more than once"
  | invalidNumber => "invalid decimal literal"
  | numberTooLarge => "numeric literal does not fit in 16 bits"

/-- How it might be mended. -/
def help? : SyntaxError → Option String
  | unexpectedToken _ .unknown =>
    some "this character does not occur in any token in LC-3 assembly"
  | unexpectedToken expected _ =>
    if expected = "end of line" then
      some "a line holds at most one statement, and operands are separated by commas"
    else none
  | unknownInstruction _ => some "a line can only start with one label"
  | unknownDirective _ =>
    some ("valid directives are " ++ ", ".intercalate (Directive.all.map toString))
  | repeatedFlag _ => some "each of n, z, and p can appear at most once after BR"
  | invalidNumber => some "a decimal literal only consists of digits 0-9"
  | numberTooLarge => some "a literal's magnitude can be at most 65535 (xFFFF)"

end SyntaxError

/-- A syntax error and where it occurs. -/
structure SyntaxFault where
  error : SyntaxError
  location : Location
deriving DecidableEq

end LC3
