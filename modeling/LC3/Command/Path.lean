import LC3.Text.Split

namespace LC3.Command

/-!
# Paths

A path names a file by the directories on the way to it. It starts at the root when it begins with
a slash, and at the working directory otherwise. Slashes may be repeated.
-/

/-- A path, taken apart. -/
structure Path where
  /-- Whether it starts at the root. -/
  absolute : Bool
  /-- The names on it. -/
  names : List String
  /-- Whether a slash stands behind the last name. -/
  closed : Bool
deriving DecidableEq

namespace Path

/-- The greatest number of bytes of a path. -/
def greatestLength : Nat := 4095

/-- The greatest number of bytes of a name. -/
def greatestNameLength : Nat := 255

/-- The names in a text, without the empty ones between slashes that are repeated. -/
def namesOf (text : String) : List String :=
  ((Text.split '/' text.toList).filter (· ≠ [])).map String.ofList

/-- Takes a path apart. -/
def ofString (text : String) : Path where
  absolute := text.toList.head? = some '/'
  names := namesOf text
  closed := text.toList.getLast? = some '/'

/-- Whether a name leads to no other place than the directory it is used in, or the one above. -/
def isRelative (name : String) : Bool :=
  name = "." || name = ".."

end Path

end LC3.Command
