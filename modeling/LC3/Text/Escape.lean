namespace LC3.Text

/-!
# Escapes of string literals

Inside a literal a backslash gives the character after it a meaning: `n` stands for a line break,
any other character for itself.
-/

/-- Resolves the escapes of a literal. A backslash that nothing follows stands for itself. -/
def unescape : List Char → List Char
  | [] => []
  | ['\\'] => ['\\']
  | '\\' :: 'n' :: text => '\n' :: unescape text
  | '\\' :: c :: text => c :: unescape text
  | c :: text => c :: unescape text

end LC3.Text
