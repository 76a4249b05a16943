import LC3.Word

namespace LC3

/-!
# Fields

A field is a part of an instruction word that holds a number of a few bits, signed or unsigned.
A 16-bit value fits a field when it comes back unchanged after it was cut to the width of the field
and extended again.

* `Field.ofWord` — the field that holds a value, or the error that it does not fit.
* `Field.word`, `Field.value`, `Field.packed` — what a field stands for, and its bits in place.
* `RangeError` — a value that does not fit, with its wording.
-/

/-- How the bits of a number are read. -/
inductive Signedness where
  /-- As a two's complement number. -/
  | signed
  /-- As a natural number. -/
  | unsigned
deriving DecidableEq

namespace Signedness

/-- Extends a narrow number to a word. -/
def extend {n : Nat} : Signedness → BitVec n → Word
  | signed, bits => bits.signExtend 16
  | unsigned, bits => bits.setWidth 16

/-- The number that a word stands for. -/
def read : Signedness → Word → Int
  | signed, word => word.toInt
  | unsigned, word => word.toNat

/-- The smallest number of a width. -/
def least (signedness : Signedness) (bits : Nat) : Int :=
  match signedness with
  | signed => -(Nat.pow 2 (bits - 1))
  | unsigned => 0

/-- The largest number of a width. -/
def greatest (signedness : Signedness) (bits : Nat) : Int :=
  match signedness with
  | signed => Nat.pow 2 (bits - 1) - 1
  | unsigned => Nat.pow 2 bits - 1

/-- The fewest bits of a number: one that is signed has at least its sign. -/
def leastBits : Signedness → Nat
  | signed => 1
  | unsigned => 0

/-- The adjective for numbers that are read in this way. -/
def adjective : Signedness → String
  | signed => "signed"
  | unsigned => "unsigned"

/-- The adjective with its article. -/
def withArticle : Signedness → String
  | signed => "a signed"
  | unsigned => "an unsigned"

end Signedness

/-- The number of bits of a field: at least one, at most a word. -/
structure Width where
  bits : Nat
  positive : 0 < bits
  atMost : bits ≤ 16
deriving DecidableEq

namespace Width

/-- The width with a number of bits, if there is one. -/
def ofNat? (bits : Nat) : Option Width :=
  if positive : 0 < bits then
    if atMost : bits ≤ 16 then some ⟨bits, positive, atMost⟩ else none
  else none

end Width

/-- A value does not fit a field of this kind and number of bits. The bounds of the field are
    themselves numbers of 32 bits. -/
structure RangeError where
  signedness : Signedness
  bits : Nat
  enough : signedness.leastBits ≤ bits
  bounded : bits < 32
deriving DecidableEq

namespace RangeError

/-- The error of a field with a number of bits, if its bounds can be told. -/
def ofBits? (signedness : Signedness) (bits : Nat) : Option RangeError :=
  if enough : signedness.leastBits ≤ bits then
    if bounded : bits < 32 then some ⟨signedness, bits, enough, bounded⟩ else none
  else none

/-- The error of a field of a word. -/
def ofWidth (signedness : Signedness) (width : Width) : RangeError where
  signedness := signedness
  bits := width.bits
  enough := by
    have := width.positive
    cases signedness <;> simp only [Signedness.leastBits] <;> omega
  bounded := by have := width.atMost; omega

@[simp] theorem signedness_ofWidth (signedness : Signedness) (width : Width) :
    (ofWidth signedness width).signedness = signedness := rfl

@[simp] theorem bits_ofWidth (signedness : Signedness) (width : Width) :
    (ofWidth signedness width).bits = width.bits := rfl

/-- What is wrong. -/
def message (error : RangeError) : String :=
  s!"value is too big for {error.signedness.adjective} {error.bits}-bit integer"

/-- Which values would have been right. -/
def help (error : RangeError) : String :=
  let least := error.signedness.least error.bits
  let greatest := error.signedness.greatest error.bits
  let kind := error.signedness.withArticle
  s!"the range for {kind} {error.bits}-bit integer is [{least}, {greatest}]"

/-- The field that was too small. -/
def fieldDescription (error : RangeError) : String :=
  s!"{error.signedness.withArticle} {error.bits}-bit"

end RangeError

/-- A number that fits a field. -/
structure Field (signedness : Signedness) (width : Width) where
  bits : BitVec width.bits
deriving DecidableEq

namespace Field

variable {signedness : Signedness} {width : Width}

/-- The 16-bit value of a field. -/
def word (field : Field signedness width) : Word :=
  signedness.extend field.bits

/-- The number that a field holds. -/
def value (field : Field signedness width) : Int :=
  signedness.read field.word

/-- The bits of a field at the low end of an instruction word. -/
def packed (field : Field signedness width) : Word :=
  field.bits.setWidth 16

/-- The field that holds a 16-bit value. -/
def ofWord (signedness : Signedness) (width : Width) (value : Word) :
    Except RangeError (Field signedness width) :=
  let field : Field signedness width := ⟨value.setWidth width.bits⟩
  if field.word = value then .ok field else .error (.ofWidth signedness width)

instance : ToString (Field signedness width) where
  toString field := "#" ++ toString field.value

end Field

end LC3
