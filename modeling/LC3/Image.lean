import LC3.Word

namespace LC3

/-!
# Object images

What assembly makes: words, each region's load address in front of its contents.
-/

/-- An assembled program. -/
structure Image where
  words : List Word
deriving DecidableEq

namespace Image

/-- The number of words. -/
def size (image : Image) : Nat :=
  image.words.length

/-- Whether there are no words. -/
def isEmpty (image : Image) : Bool :=
  image.words.isEmpty

end Image

end LC3
