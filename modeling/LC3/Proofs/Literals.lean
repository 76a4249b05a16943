import LC3.Proofs.Spelling
import LC3.Text.Escape
import LC3.Text.Latin1

namespace LC3

/-!
# Writing string literals

Every text can be written as a literal: backslashes, quotes and line breaks are escaped, and all
other characters stand for themselves.

* `Text.escape` — a text as it is written between two quotes.
* `Text.quoted_escape` — it can stand there.
* `Text.unescape_escape` — its escapes are resolved to the text.
* `Text.decodeLatin1_escapeBytes` — bytes are escaped like the characters that they stand for.
-/

namespace Text

/-- A character as it is written between two quotes. -/
def escapeChar (quote c : Char) : List Char :=
  if c = '\n' then ['\\', 'n'] else if c = '\\' ∨ c = quote then ['\\', c] else [c]

/-- A text as it is written between two quotes. -/
def escape (quote : Char) (text : List Char) : List Char :=
  text.flatMap (escapeChar quote)

variable {quote : Char}

/-- What is written for a text can stand between two quotes. -/
theorem quoted_escape (quote : Char) (text : List Char) :
    Lexical.Quoted quote (escape quote text) := by
  induction text with
  | nil => exact .nil
  | cons c text ih =>
    rw [escape, List.flatMap_cons, escapeChar]
    split_ifs with hbreak hescape
    · exact .escaped (by decide) ih
    · exact .escaped hbreak ih
    · obtain ⟨hbackslash, hquote⟩ := not_or.mp hescape
      exact .plain hquote hbackslash hbreak ih

/-- An escape is resolved to its character, unless this is the letter that stands for a line
    break. -/
theorem unescape_escaped {c : Char} (text : List Char) (hc : c ≠ 'n') :
    unescape ('\\' :: c :: text) = c :: unescape text := by
  rw [unescape]
  exact hc

/-- A character that is no backslash stands for itself. -/
theorem unescape_plain {c : Char} (text : List Char) (hc : c ≠ '\\') :
    unescape (c :: text) = c :: unescape text := by
  rw [unescape]
  · exact fun h _ => hc h
  · exact fun _ h _ => hc h
  · exact fun _ _ h _ => hc h

/-- **Escapes are resolved.** What is written for a text is read as the text. -/
theorem unescape_escape (hquote : Lexical.IsQuote quote) (text : List Char) :
    unescape (escape quote text) = text := by
  induction text with
  | nil => rfl
  | cons c text ih =>
    rw [escape, List.flatMap_cons, escapeChar]
    -- one case for each way in which a character is written: as a line break, escaped, or as it is
    split_ifs with hbreak hescape
    · subst hbreak
      show '\n' :: unescape (escape quote text) = _
      rw [ih]
    · -- what is escaped is a backslash or a quote, never the letter of a line break
      have hletter : c ≠ 'n' := by
        rintro rfl
        rcases hescape with h | rfl
        · exact absurd h (by decide)
        · rcases hquote with h | h <;> exact absurd h (by decide)
      show unescape ('\\' :: c :: escape quote text) = _
      rw [unescape_escaped _ hletter, ih]
    · show unescape (c :: escape quote text) = _
      rw [unescape_plain _ fun h => hescape (.inl h), ih]

/-! ### Bytes -/

/-- A byte as it is written between double quotes. -/
def escapeByte (byte : UInt8) : List UInt8 :=
  if byte = 0x0A then [0x5C, 0x6E] else if byte = 0x5C ∨ byte = 0x22 then [0x5C, byte] else [byte]

/-- Bytes are escaped like the characters that they stand for. -/
theorem decodeLatin1_escapeBytes (bytes : List UInt8) :
    decodeLatin1 (bytes.flatMap escapeByte) = escape '"' (decodeLatin1 bytes) := by
  have hbyte : ∀ byte : UInt8, decodeLatin1 (escapeByte byte) =
      escapeChar '"' (Char.ofNat byte.toNat) := by
    -- there are few bytes, so each of them is tried
    intro byte
    have hall : ∀ n < 256, decodeLatin1 (escapeByte (UInt8.ofNat n)) =
        escapeChar '"' (Char.ofNat n) := by
      decide +kernel
    have hfound := hall byte.toNat byte.toNat_lt
    rwa [UInt8.ofNat_toNat] at hfound
  induction bytes with
  | nil => rfl
  | cons byte bytes ih =>
    rw [List.flatMap_cons, decodeLatin1, List.map_append]
    show decodeLatin1 (escapeByte byte) ++ decodeLatin1 (bytes.flatMap escapeByte) = _
    rw [hbyte, ih]
    rfl

end Text

end LC3
