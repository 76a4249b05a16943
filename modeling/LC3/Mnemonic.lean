import LC3.Word
import LC3.Format

namespace LC3

/-!
# Mnemonics

The names of the instructions, with the fixed bits of their words and the formats they accept.
Names are matched without regard to the case of ASCII letters.
-/

/-- Whether a word is a given upper-case name, in any case. -/
def isNamed (name word : String) : Bool :=
  word.toList.map Char.toUpper = name.toList

/-- The name of an instruction. -/
inductive Mnemonic where
  | add | and | br | jmp | jsr | jsrr | ld | ldi | ldr | lea | not | ret | rti | st | sti | str
  | trap
  /-- Reads a character. -/
  | getc
  /-- Writes a character. -/
  | out
  /-- Writes a string of one character a word. -/
  | puts
  /-- Asks for a character and echoes it. -/
  | input
  /-- Writes a string of two characters a word. -/
  | putsp
  /-- Stops the machine. -/
  | halt
deriving DecidableEq

namespace Mnemonic

/-- Every mnemonic. -/
def all : List Mnemonic :=
  [add, and, br, jmp, jsr, jsrr, ld, ldi, ldr, lea, not, ret, rti, st, sti, str, trap, getc, out,
    puts, input, putsp, halt]

/-- The upper-case name. -/
def name : Mnemonic → String
  | add => "ADD"
  | and => "AND"
  | br => "BR"
  | jmp => "JMP"
  | jsr => "JSR"
  | jsrr => "JSRR"
  | ld => "LD"
  | ldi => "LDI"
  | ldr => "LDR"
  | lea => "LEA"
  | not => "NOT"
  | ret => "RET"
  | rti => "RTI"
  | st => "ST"
  | sti => "STI"
  | str => "STR"
  | trap => "TRAP"
  | getc => "GETC"
  | out => "OUT"
  | puts => "PUTS"
  | input => "IN"
  | putsp => "PUTSP"
  | halt => "HALT"

/-- The instruction word before any operand is packed in. -/
def word : Mnemonic → Word
  | add => 0x1000#16
  | and => 0x5000#16
  | br => 0x0000#16
  | jmp => 0xC000#16
  | jsr => 0x4800#16
  | jsrr => 0x4000#16
  | ld => 0x2000#16
  | ldi => 0xA000#16
  | ldr => 0x6000#16
  | lea => 0xE000#16
  | not => 0x903F#16
  | ret => 0xC1C0#16
  | rti => 0x8000#16
  | st => 0x3000#16
  | sti => 0xB000#16
  | str => 0x7000#16
  | trap => 0xF000#16
  | getc => 0xF020#16
  | out => 0xF021#16
  | puts => 0xF022#16
  | input => 0xF023#16
  | putsp => 0xF024#16
  | halt => 0xF025#16

/-- The formats that an instruction accepts. -/
def formats : Mnemonic → List Format
  | add | and => [.threeRegisters, .registersNumber]
  | br => [.branch]
  | jmp => [.register, .address]
  | jsr => [.address]
  | jsrr => [.register]
  | ld | ldi | lea | st | sti => [.registerAddress]
  | ldr | str => [.registersNumber]
  | not => [.registers]
  | trap => [.vector]
  | ret | rti | getc | out | puts | input | putsp | halt => [.empty]

/-- The mnemonic with a name, in any case. A branch is found under its bare name only. -/
def ofName? (word : String) : Option Mnemonic :=
  all.find? fun mnemonic => isNamed mnemonic.name word

instance : ToString Mnemonic where
  toString := name

end Mnemonic

end LC3
