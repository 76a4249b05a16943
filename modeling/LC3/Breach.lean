import LC3.Format

namespace LC3

/-!
# Breaches

What callers have to keep, and what happens when they do not: the computation stops, with no
diagnostics. Trees and locations that come from one source never cause a breach.
-/

/-- A condition that a caller did not keep. -/
inductive Breach where
  /-- A location does not lie between two characters of its source. -/
  | misplacedLocation (offset : Nat)
  /-- An instruction is recorded to have a format that only directives have, or the other way
      round. -/
  | foreignFormat (format : Format)
  /-- A rule repeats something that can go on behind the end of the source. -/
  | endlessRule
deriving DecidableEq

end LC3
