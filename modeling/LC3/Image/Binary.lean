import LC3.Image

namespace LC3.Image

/-!
# The binary format

An image as bytes: its words one behind the other, the high byte of each first.
-/

/-- The two bytes of a word. -/
def wordBytes (word : Word) : List UInt8 :=
  [⟨word.extractLsb' 8 8⟩, ⟨word.extractLsb' 0 8⟩]

/-- The word of two bytes. -/
def wordOfBytes (high low : UInt8) : Word :=
  high.toBitVec ++ low.toBitVec

/-- An image as bytes. -/
def toBytes (image : Image) : List UInt8 :=
  image.words.flatMap wordBytes

/-- The words of a sequence of bytes, if there is an even number of them. -/
def wordsOfBytes? : List UInt8 → Option (List Word)
  | [] => some []
  | [_] => none
  | high :: low :: bytes => (wordsOfBytes? bytes).map (wordOfBytes high low :: ·)

/-- The image that a sequence of bytes holds. -/
def ofBytes? (bytes : List UInt8) : Option Image :=
  (wordsOfBytes? bytes).map Image.mk

end LC3.Image
