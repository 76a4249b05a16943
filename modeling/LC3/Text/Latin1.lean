namespace LC3.Text

/-!
# Latin-1

Each byte stands for the character with the same number, so every sequence of bytes is a text and
has as many characters as bytes.
-/

/-- The text that a sequence of bytes spells. -/
def decodeLatin1 (bytes : List UInt8) : List Char :=
  bytes.map fun b => Char.ofNat b.toNat

/-- Each byte spells one character. -/
@[simp] theorem length_decodeLatin1 (bytes : List UInt8) :
    (decodeLatin1 bytes).length = bytes.length := by
  simp [decodeLatin1]

end LC3.Text
