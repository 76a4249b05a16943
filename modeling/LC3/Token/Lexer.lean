import LC3.Token

namespace LC3

/-!
# The lexer

Splits a source text into tokens, one at a time. Every text can be split: what starts no token is a
token of kind `unknown`. A NUL character outside literals and comments ends the source early.

* `Lexer.blankLength` — how much of a text lies in front of its first token.
* `Lexeme.ofText` — the kind and the length of the token that a text starts with.
* `Lexer.next` — the next token and the lexer behind it. Once the source is exhausted it keeps
  giving tokens of kind `sourceEnd`.
* `Lexer.tokens` — all tokens up to the first of kind `sourceEnd`.
-/

/-- The kind of a token and its number of characters, quotes included. -/
structure Lexeme where
  kind : TokenKind
  length : Nat
deriving DecidableEq

/-- What is found behind the opening quote of a literal: whether it is closed on its line, and its
    number of characters with the closing quote. -/
structure Quotation where
  closed : Bool
  length : Nat
deriving DecidableEq

namespace Quotation

/-- The same literal with some more characters in front. -/
def extend (n : Nat) (quotation : Quotation) : Quotation :=
  { quotation with length := n + quotation.length }

/-- Reads a literal behind its opening quote. A backslash takes away the meaning of the character
    after it, but a literal never extends over a line break. -/
def ofText (quote : Char) : List Char → Quotation
  | [] => ⟨false, 0⟩
  | '\n' :: _ => ⟨false, 0⟩
  | ['\\'] => ⟨false, 1⟩
  | '\\' :: '\n' :: _ => ⟨false, 1⟩
  | '\\' :: _ :: text => (ofText quote text).extend 2
  | c :: text => if c = quote then ⟨true, 1⟩ else (ofText quote text).extend 1

end Quotation

namespace Lexeme

/-- Whether a character can start a word. -/
def isWordStart (c : Char) : Bool :=
  c.isAlpha || c = '_'

/-- Whether a character can continue a word. -/
def isWordPart (c : Char) : Bool :=
  c.isAlphanum || c = '_'

/-- The token that a text starts with, for a text whose first character `c` is neither blank nor
    NUL. -/
def ofText (c : Char) (text : List Char) : Lexeme :=
  match c with
  | ',' => ⟨.comma, 1⟩
  | '.' => ⟨.period, 1⟩
  | '#' => ⟨.pound, 1⟩
  | ':' => ⟨.colon, 1⟩
  | '-' => ⟨.minus, 1⟩
  | '\n' => ⟨.linebreak, 1⟩
  | c =>
    if c.isDigit then ⟨.number, (text.takeWhile Char.isAlphanum).length + 1⟩
    else if isWordStart c then ⟨.word, (text.takeWhile isWordPart).length + 1⟩
    else if c = '"' ∨ c = '\'' then
      let quotation := Quotation.ofText c text
      ⟨if quotation.closed then .string else .unknown, quotation.length + 1⟩
    else ⟨.unknown, 1⟩

/-- The text of a token, given the text that it starts. The quotes of a literal are left out. -/
def extract (lexeme : Lexeme) (text : List Char) : List Char :=
  match lexeme.kind with
  | .string => ((text.take lexeme.length).drop 1).dropLast
  | _ => text.take lexeme.length

end Lexeme

/-- A place in a source from which tokens are read. -/
structure Lexer where
  /-- The text that is still to be split. -/
  rest : List Char
  /-- Where that text starts. -/
  location : Location
  /-- Whether the end of the source has been reached. -/
  finished : Bool

namespace Lexer

/-- A lexer at the beginning of a source. -/
def ofSource (source : String) : Lexer :=
  ⟨source.toList, .start, false⟩

/-- Whether a character only separates tokens. -/
def isBlank (c : Char) : Bool :=
  c = ' ' || c = '\t' || c = '\r' || c = '\x0b' || c = '\x0c'

/-- The number of characters in front of the first token of a text: blanks, and comments, which
    reach from a semicolon up to the line break. `comment` tells that the text starts inside one. -/
def blankLength (comment : Bool) : List Char → Nat
  | [] => 0
  | c :: text =>
    if comment then
      if c = '\n' then 0 else blankLength true text + 1
    else if isBlank c then blankLength false text + 1
    else if c = ';' then blankLength true text + 1
    else 0

/-- The token that ends a source. -/
def endToken (location : Location) : Token :=
  ⟨.sourceEnd, "", location⟩

/-- Reads the token that starts at the head of a text. -/
def scan (c : Char) (text : List Char) (location : Location) : Token × Lexer :=
  let lexeme := Lexeme.ofText c text
  let behind :=
    if lexeme.kind = .linebreak then location.nextLine
    else location.shifted (Text.byteLength ((c :: text).take lexeme.length))
  (⟨lexeme.kind, String.ofList (lexeme.extract (c :: text)), location⟩,
    ⟨(c :: text).drop lexeme.length, behind, false⟩)

/-- The next token, and the lexer behind it. -/
def next (lexer : Lexer) : Token × Lexer :=
  if lexer.finished then (endToken lexer.location, lexer)
  else
    let blanks := blankLength false lexer.rest
    let location := lexer.location.shifted (Text.byteLength (lexer.rest.take blanks))
    match lexer.rest.drop blanks with
    | [] => (endToken location, ⟨[], location, true⟩)
    | c :: text =>
      if c = '\x00' then (endToken location, ⟨text, location.shifted 1, true⟩)
      else scan c text location

/-- The next token, unless the end of the source has been reached before. -/
def next? (lexer : Lexer) : Option (Token × Lexer) :=
  if lexer.finished then none else some lexer.next

/-- The `n`-th token from here, counted from zero. -/
def nth (lexer : Lexer) : Nat → Token
  | 0 => lexer.next.1
  | n + 1 => lexer.next.2.nth n

/-- The next tokens up to the first that ends the source, at most `limit` of them, and the lexer
    behind them. -/
def take (lexer : Lexer) : Nat → List Token × Lexer
  | 0 => ([], lexer)
  | limit + 1 =>
    match lexer.next? with
    | none => ([], lexer)
    | some (token, behind) =>
      let (tokens, last) := behind.take limit
      (token :: tokens, last)

/-- All tokens up to the first that ends the source, and the lexer behind them. Each token but the
    last takes a character, so there are at most one more than characters. -/
def tokens (lexer : Lexer) : List Token × Lexer :=
  lexer.take (lexer.rest.length + 1)

end Lexer

end LC3
