import LC3.Mnemonic

namespace LC3

/-!
# Directives

Orders to the assembler, written behind a period: they open and close regions of memory and fill
them with data.
-/

/-- An order to the assembler. -/
inductive Directive where
  /-- `.ORIG`: opens a region at an address. -/
  | orig
  /-- `.FILL`: one word. -/
  | fill
  /-- `.BLKW`: a block of equal words. -/
  | blkw
  /-- `.STRINGZ`: a string of one character a word, and a zero word. -/
  | stringz
  /-- `.END`: closes the region. -/
  | endRegion
deriving DecidableEq

namespace Directive

/-- Every directive. -/
def all : List Directive :=
  [orig, fill, blkw, stringz, endRegion]

/-- The upper-case name, without the period. -/
def name : Directive → String
  | orig => "ORIG"
  | fill => "FILL"
  | blkw => "BLKW"
  | stringz => "STRINGZ"
  | endRegion => "END"

/-- The directive with a name, in any case and without the period. -/
def ofName? (word : String) : Option Directive :=
  all.find? fun directive => isNamed directive.name word

/-- The formats that a directive accepts. -/
def formats : Directive → List Format
  | orig => [.number]
  | fill => [.address]
  | blkw => [.number, .numberAddress]
  | stringz => [.string]
  | endRegion => [.empty]

/-- Whether a directive places words in memory. -/
def isMemory : Directive → Bool
  | fill | blkw | stringz => true
  | orig | endRegion => false

instance : ToString Directive where
  toString directive := "." ++ directive.name

end Directive

end LC3
