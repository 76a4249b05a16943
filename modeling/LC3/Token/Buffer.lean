import LC3.Token.Lexer

namespace LC3

/-!
# Token buffers

A buffer gives access to the tokens of a source by their number. It reads them from a lexer when
they are first asked for and keeps them, so a source is split only as far as somebody has looked.
-/

/-- The tokens read so far, and the lexer that gives the next ones. -/
structure Buffer where
  lexer : Lexer
  tokens : Array Token

namespace Buffer

/-- The buffer of a source of which nothing has been read. -/
def ofSource (source : String) : Buffer :=
  ⟨.ofSource source, #[]⟩

/-- Reads some more tokens. -/
def fill (buffer : Buffer) : Nat → Buffer
  | 0 => buffer
  | n + 1 =>
    let (token, lexer) := buffer.lexer.next
    fill ⟨lexer, buffer.tokens.push token⟩ n

@[simp] theorem size_tokens_fill (buffer : Buffer) (n : Nat) :
    (buffer.fill n).tokens.size = buffer.tokens.size + n := by
  induction n generalizing buffer with
  | zero => rfl
  | succ n ih => simp only [fill, ih, Array.size_push]; omega

/-- The token with a number, counted from zero, and the buffer that holds it. -/
def get (buffer : Buffer) (index : Nat) : Token × Buffer :=
  let filled := buffer.fill (index + 1 - buffer.tokens.size)
  have bound : index < filled.tokens.size := by
    rw [size_tokens_fill]; omega
  (filled.tokens[index], filled)

end Buffer

end LC3
