import LC3.Rule
import LC3.Text.Escape
import LC3.Text.Numeral

namespace LC3

/-!
# Lines

The rules of assembly source.

```
document    = {line}, end of source
line        = [label], [directive | instruction], end of line
directive   = ".", name, [operand, {[","], operand}]
instruction = mnemonic, [operand, {",", operand}]
number      = hexadecimal | "#", decimal | decimal
decimal     = ["-"], digits
```

A label is a word with a colon behind it, or a word that is no keyword. The operands of a directive
are numbers, labels and strings, those of an instruction registers, numbers and labels.
-/

namespace Line

/-- A label at the head of a line; its colon is consumed too. -/
def label : Rule :=
  .primitive "label" fun word next =>
    if word.kind ≠ .word then .reject
    else if next.kind = .colon then .accept 2 [.leaf .labelDefinition word]
    else if Keyword.isReserved word.text then .reject
    else .accept 1 [.leaf .labelDefinition word]

/-- The flags of a branch as a node of their own: the part of the mnemonic behind `BR`. -/
def flagsNode (flags : Flags) (mnemonic : Token) : Node :=
  .leaf (.flags flags)
    { mnemonic with
      text := String.ofList (mnemonic.text.toList.drop 2)
      location := mnemonic.location.shifted 2 }

/-- The mnemonic of an instruction, with the flags of a branch. -/
def mnemonic : Rule :=
  .primitive "instruction" fun word _ =>
    if word.kind ≠ .word then .reject
    else
      match Keyword.lookup word.text with
      | .instruction mnemonic flags? =>
        .accept 1 (.leaf (.instruction mnemonic none flags?) word ::
          (flags?.map (flagsNode · word)).toList)
      | .repeatedFlag letter => .fail 0 (.repeatedFlag letter)
      | .unknown => .fail 0 (.unknownInstruction word.text)

/-- The name of a directive, behind its period. -/
def directiveName : Rule :=
  .primitive "directive name" fun word _ =>
    if word.kind ≠ .word then .fail 0 (.unexpectedToken "directive name" word.kind)
    else
      match Directive.ofName? word.text with
      | some directive => .accept 1 [.leaf (.directive directive) word]
      | none => .fail 0 (.unknownDirective word.text)

/-- A register. -/
def register : Rule :=
  .operand "register" .word fun text => (Register.ofName? text).map .register

/-- The use of a label. -/
def labelReference : Rule :=
  .operand "label" .word fun _ => some .labelReference

/-- A string literal. -/
def string : Rule :=
  .operand "string" .string fun text =>
    some (.string (String.ofList (Text.unescape text.toList)))

/-- The text behind the `x` of a word that starts with one. -/
def hexDigits? : List Char → Option (List Char)
  | 'x' :: digits => some digits
  | 'X' :: digits => some digits
  | _ => none

/-- A hexadecimal number. A word that has other characters behind its `x` is none. -/
def hexNumber : Rule :=
  .primitive "hex number" fun word _ =>
    if word.kind ≠ .word then .reject
    else
      match (hexDigits? word.text.toList).bind Text.hexValue? with
      | none => .reject
      | some value =>
        if value < Word.count then .accept 1 [.leaf (.number (BitVec.ofNat 16 value)) word]
        else .fail 0 .numberTooLarge

/-- The value of decimal digits that follow digits worth `high`. They are read from the left, so
    what goes wrong first is the error. -/
def decimalValueFrom (high : Nat) : List Char → Except SyntaxError Nat
  | [] => .ok high
  | c :: text =>
    match Text.digitValue? c with
    | none => .error .invalidNumber
    | some digit =>
      if high * 10 + digit < Word.count then decimalValueFrom (high * 10 + digit) text
      else .error .numberTooLarge

/-- A decimal number, given the token of its digits and what to do with the value. -/
def decimalDigits (skipped : Nat) (digits : Token) (sign : Word → Word) : Decision :=
  if digits.kind ≠ .number then .reject
  else
    match decimalValueFrom 0 digits.text.toList with
    | .ok value =>
      .accept (skipped + 1) [.leaf (.number (sign (BitVec.ofNat 16 value))) digits]
    | .error error => .fail skipped error

/-- A decimal number. A minus in front of it negates the word. -/
def decimalNumber : Rule :=
  .primitive "decimal number" fun first second =>
    if first.kind = .minus then decimalDigits 1 second (- ·) else decimalDigits 0 first id

/-- A number. -/
def number : Rule :=
  .expecting
    (.any [hexNumber, .all [.atom .pound, .commit decimalNumber], decimalNumber]) "number"

/-- The end of a line. That of the source is not consumed. -/
def lineEnd : Rule :=
  .primitive "end of line" fun token _ =>
    match token.kind with
    | .linebreak => .accept 1 []
    | .sourceEnd => .accept 0 []
    | _ => .reject

/-- An operand of a directive. -/
def directiveOperand : Rule :=
  .any [number, labelReference, string]

/-- A directive with its operands. -/
def directive : Rule :=
  .expecting
    (.subtree (.all [.atom .period, directiveName,
      .maybe (.all [directiveOperand,
        .many (.all [.maybe (.atom .comma), directiveOperand])])])) "directive"

/-- An operand of an instruction. -/
def instructionOperand : Rule :=
  .any [register, number, labelReference]

/-- An instruction with its operands. -/
def instruction : Rule :=
  .expecting
    (.subtree (.all [mnemonic,
      .maybe (.all [instructionOperand,
        .many (.all [.atom .comma, .commit instructionOperand])])])) "instruction"

/-- A line. -/
def line : Rule :=
  .all [.maybe label, .maybe (.any [directive, instruction]), .commit lineEnd]

/-- A whole source. A line that cannot be read is skipped. -/
def document : Rule :=
  .all [.many (.recover line .linebreak), .atom .sourceEnd]

end Line

end LC3
