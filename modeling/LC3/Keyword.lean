import LC3.Flags
import LC3.Directive

namespace LC3

/-!
# Keywords

Which words name an instruction or a directive. The mnemonic of a branch carries its condition
flags, so `BRnz` and `brzn` are words for the same branch.

* `Keyword.lookup` — the instruction that a word names.
* `Keyword.isReserved` — whether a word can be a label only when a colon follows it.
-/

namespace Keyword

/-- What a word is in the place of an instruction. -/
inductive Meaning where
  /-- An instruction; a branch comes with its flags. -/
  | instruction (mnemonic : Mnemonic) (flags? : Option Flags)
  /-- A branch that repeats the letter of a flag. -/
  | repeatedFlag (letter : Char)
  /-- No instruction. -/
  | unknown
deriving DecidableEq

/-- The text behind `BR` in any case, for a word that starts with it. -/
def branchSuffix? : List Char → Option (List Char)
  | b :: r :: suffix => if b.toUpper = 'B' ∧ r.toUpper = 'R' then some suffix else none
  | _ => none

/-- What a word means that is not read as a branch. -/
def lookupPlain (word : String) : Meaning :=
  match Mnemonic.ofName? word with
  | some mnemonic => .instruction mnemonic none
  | none => .unknown

/-- What a word means in the place of an instruction. -/
def lookup (word : String) : Meaning :=
  match branchSuffix? word.toList with
  | none => lookupPlain word
  | some suffix =>
    match Flags.ofSuffix suffix with
    | .flags flags => .instruction .br (some flags)
    | .repeated letter => .repeatedFlag letter
    | .other => lookupPlain word

/-- Whether a word is a keyword: the name of an instruction, also one with a repeated flag, or of a
    directive. -/
def isReserved (word : String) : Bool :=
  lookup word ≠ .unknown || (Directive.ofName? word).isSome

end Keyword

end LC3
