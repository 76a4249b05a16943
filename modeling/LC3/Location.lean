import LC3.Text.Bytes

namespace LC3

/-!
# Locations

A location is a place in a source text: its line, the byte column within that line, and the byte
offset within the whole text. It does not hold the text; `Location.lineText?` takes it.

* `Location.ofOffset?` — the location of a byte offset.
* `Location.shifted`, `Location.nextLine` — how a reader moves along.
* `Location.lineText?` — the line of a source that a location is on.
-/

/-- A place in a source text. -/
structure Location where
  /-- The line, counted from one. -/
  line : Nat
  /-- The bytes before the place on its line. -/
  column : Nat
  /-- The bytes before the place in the whole text. -/
  offset : Nat
deriving DecidableEq

namespace Location

/-- The beginning of every source. -/
def start : Location := ⟨1, 0, 0⟩

/-- The place some bytes further along the same line. -/
def shifted (location : Location) (bytes : Nat) : Location :=
  { location with column := location.column + bytes, offset := location.offset + bytes }

/-- The beginning of the next line, for a place in front of a line break. -/
def nextLine (location : Location) : Location :=
  ⟨location.line + 1, 0, location.offset + 1⟩

@[simp] theorem shifted_zero (location : Location) : location.shifted 0 = location := rfl

@[simp] theorem shifted_shifted (location : Location) (m n : Nat) :
    (location.shifted m).shifted n = location.shifted (m + n) := by
  simp [shifted, Nat.add_assoc]

/-- The place at the end of a text that stands at the beginning of a source. -/
def after (text : List Char) : Location :=
  ⟨text.count '\n' + 1, Text.byteLength (Text.lastLine text), Text.byteLength text⟩

/-- The place of a byte offset; an offset past the end means the end. There is none inside a
    character. -/
def ofOffset? (source : String) (offset : Nat) : Option Location :=
  let text := source.toList
  (Text.cutBytes? (min offset (Text.byteLength text)) text).map fun (before, _) => after before

/-- The text of the line that a location is on, without the line break and the carriage returns
    before it. There is none when the offset lies inside a character or past the end. -/
def lineText? (location : Location) (source : String) : Option String :=
  (Text.cutBytes? location.offset source.toList).map fun (before, after) =>
    String.ofList (Text.dropTrailing '\r' (Text.lastLine before ++ Text.firstLine after))

instance : ToString Location where
  toString location := toString location.line ++ ":" ++ toString (location.column + 1)

end Location

end LC3
