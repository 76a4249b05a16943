namespace LC3

/-!
# Formats

A format lists the classes of operand that a statement takes. An instruction or directive accepts
one or two formats.

* `Format.operands` — the operand classes, in order.
* `Format.display` — a format as it would be written behind a mnemonic.
-/

/-- A class of operands. -/
inductive Operand where
  /-- A register. -/
  | register
  /-- A number. -/
  | number
  /-- A string literal. -/
  | string
  /-- An address: a number, or a label that stands for one. -/
  | address
  /-- The condition flags of a branch, which are written in its mnemonic. -/
  | flags
deriving DecidableEq

namespace Operand

/-- Every class of operands. -/
def all : List Operand :=
  [register, number, string, address, flags]

instance : ToString Operand where
  toString
    | register => "REG"
    | number => "NUM"
    | string => "STRING"
    | address => "LABEL"
    | flags => "FLAGS"

end Operand

/-- The operands of a statement. -/
inductive Format where
  /-- No operands: `HALT`. -/
  | empty
  /-- `JMP R2` -/
  | register
  /-- `.ORIG x3000` -/
  | number
  /-- `.STRINGZ "hi"` -/
  | string
  /-- `JSR SUB` -/
  | address
  /-- `BRnz LOOP` -/
  | branch
  /-- `TRAP x25` -/
  | vector
  /-- `.BLKW 2, #5` -/
  | numberAddress
  /-- `NOT R0, R1` -/
  | registers
  /-- `LD R0, VALUE` -/
  | registerAddress
  /-- `ADD R0, R1, R2` -/
  | threeRegisters
  /-- `ADD R0, R1, #-1` -/
  | registersNumber
deriving DecidableEq

namespace Format

/-- Every format. -/
def all : List Format :=
  [empty, register, number, string, address, branch, vector, numberAddress, registers,
    registerAddress, threeRegisters, registersNumber]

/-- The name of a format in records. -/
def name : Format → String
  | empty => "Empty"
  | register => "Reg"
  | number => "Num"
  | string => "Str"
  | address => "Addr"
  | branch => "Branch"
  | vector => "Vec"
  | numberAddress => "NumAddr"
  | registers => "RegReg"
  | registerAddress => "RegAddr"
  | threeRegisters => "RegRegReg"
  | registersNumber => "RegRegNum"

/-- The classes of the operands, in order. -/
def operands : Format → List Operand
  | empty => []
  | register => [.register]
  | number => [.number]
  | string => [.string]
  | address => [.address]
  | branch => [.flags, .address]
  | vector => [.number]
  | numberAddress => [.number, .address]
  | registers => [.register, .register]
  | registerAddress => [.register, .address]
  | threeRegisters => [.register, .register, .register]
  | registersNumber => [.register, .register, .number]

/-- A format behind a mnemonic: `ADD REG, REG, NUM`. Flags belong to the mnemonic. -/
def display (format : Format) (mnemonic : String) : String :=
  match format.operands.filter (· ≠ .flags) with
  | [] => mnemonic
  | operands => mnemonic ++ " " ++ ", ".intercalate (operands.map toString)

end Format

end LC3
