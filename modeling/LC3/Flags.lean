namespace LC3

/-!
# Condition flags

A branch is taken when one of its flags agrees with the last result: negative, zero or positive.
The flags are written as letters behind `BR`, in any order and case, each at most once; no letters
at all mean all three flags.

* `Flags.ofSuffix` — what the letters behind `BR` mean.
* `Flags.bits` — the condition field of a branch.
-/

/-- The conditions under which a branch is taken. -/
structure Flags where
  negative : Bool
  zero : Bool
  positive : Bool
deriving DecidableEq

namespace Flags

/-- Every flag set. -/
def all : Flags := ⟨true, true, true⟩

/-- No flag set. -/
def none : Flags := ⟨false, false, false⟩

/-- The condition field: `n`, `z` and `p` from the high bit to the low one. -/
def bits (flags : Flags) : BitVec 3 :=
  BitVec.ofBool flags.negative ++ BitVec.ofBool flags.zero ++ BitVec.ofBool flags.positive

instance : ToString Flags where
  toString flags :=
    (if flags.negative then "n" else "") ++ (if flags.zero then "z" else "") ++
      (if flags.positive then "p" else "")

/-- Whether a character is the letter of a flag. -/
def isLetter (c : Char) : Bool :=
  c.toLower = 'n' || c.toLower = 'z' || c.toLower = 'p'

/-- Sets the flag of a letter, unless it is set already. -/
def insert? (flags : Flags) (letter : Char) : Option Flags :=
  match letter.toLower with
  | 'n' => if flags.negative then Option.none else some { flags with negative := true }
  | 'z' => if flags.zero then Option.none else some { flags with zero := true }
  | _ => if flags.positive then Option.none else some { flags with positive := true }

/-- Sets the flags of some letters, or gives the first letter whose flag is set already. -/
def insertAll (flags : Flags) : List Char → Except Char Flags
  | [] => .ok flags
  | letter :: letters =>
    match flags.insert? letter with
    | some more => more.insertAll letters
    | Option.none => .error letter

/-- What the text behind `BR` can be. -/
inductive Suffix where
  /-- The letters of these flags, each once. -/
  | flags (flags : Flags)
  /-- Letters of flags, of which this one is the first to occur again. -/
  | repeated (letter : Char)
  /-- Something else. -/
  | other
deriving DecidableEq

/-- Reads the text behind `BR`. -/
def ofSuffix (suffix : List Char) : Suffix :=
  if suffix.isEmpty then .flags all
  else if suffix.all isLetter then
    match none.insertAll suffix with
    | .ok flags => .flags flags
    | .error letter => .repeated letter
  else .other

end Flags

end LC3
