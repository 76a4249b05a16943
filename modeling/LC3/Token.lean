import LC3.Location

namespace LC3

/-!
# Tokens

The units that a source text falls into. Tokens are coarse: `0abc` is one number and `x3000` is a
word; what they mean is for the rules of the grammar to say.
-/

/-- The kinds of token. -/
inductive TokenKind where
  /-- `,` between operands. -/
  | comma
  /-- `.` in front of a directive. -/
  | period
  /-- `#` in front of a decimal number. -/
  | pound
  /-- `:` after a label. -/
  | colon
  /-- `-` in front of a decimal number. -/
  | minus
  /-- Letters, digits and underscores that start with no digit. -/
  | word
  /-- Letters and digits that start with a digit. -/
  | number
  /-- A quoted literal. -/
  | string
  /-- The end of a line. -/
  | linebreak
  /-- The end of the source. -/
  | sourceEnd
  /-- A character that starts no other token, or a literal that is never closed. -/
  | unknown
deriving DecidableEq

namespace TokenKind

/-- Every kind of token. -/
def all : List TokenKind :=
  [comma, period, pound, colon, minus, word, number, string, linebreak, sourceEnd, unknown]

/-- What a kind of token is called in messages. -/
def description : TokenKind → String
  | comma => "comma"
  | period => "period"
  | pound => "pound sign"
  | colon => "colon"
  | minus => "minus sign"
  | word => "word"
  | number => "number"
  | string => "string"
  | linebreak => "line break"
  | sourceEnd => "end of file"
  | unknown => "unknown character"

theorem mem_all (kind : TokenKind) : kind ∈ all := by
  cases kind <;> decide

end TokenKind

/-- A unit of a source text. -/
structure Token where
  /-- What kind of unit it is. -/
  kind : TokenKind
  /-- Its text; for a quoted literal what stands between the quotes, escapes unresolved. -/
  text : String
  /-- Where it starts; for a quoted literal the opening quote. -/
  location : Location
deriving DecidableEq

end LC3
