import LC3.Proofs.Literals
import LC3.Proofs.Scanning

namespace LC3

/-!
# String literals there and back

The lexer looks for the quote that closes a literal, and the escapes are resolved later. Both agree
on which backslash escapes which character: a text that is written as a literal is read as this
text, and in whatever is read as a literal every backslash has a character to escape.

* `Text.Resolves` — how escapes are resolved, if each of them is complete.
* `Lexical.Quoted.exists_resolves` — what can stand between two quotes has complete escapes only.
* `Lexer.behind` — where a lexer goes on behind some tokens.
* `Lexer.literals_round_trip` — what is written as a literal, and what is read as one.
-/

/-! ### Escapes -/

namespace Text

/-- A text as a literal: escaped, and between two quotes. -/
def literal (quote : Char) (text : List Char) : List Char :=
  quote :: (escape quote text ++ [quote])

/-- What a text stands for whose every backslash is followed by the character that it escapes, and
    the number of its escapes. -/
inductive Resolves : List Char → List Char → Nat → Prop where
  | nil : Resolves [] [] 0
  | plain {c : Char} {text resolved : List Char} {escapes : Nat} (hc : c ≠ '\\')
    (h : Resolves text resolved escapes) : Resolves (c :: text) (c :: resolved) escapes
  | linebreak {text resolved : List Char} {escapes : Nat} (h : Resolves text resolved escapes) :
    Resolves ('\\' :: 'n' :: text) ('\n' :: resolved) (escapes + 1)
  | escaped {c : Char} {text resolved : List Char} {escapes : Nat} (hc : c ≠ 'n')
    (h : Resolves text resolved escapes) :
    Resolves ('\\' :: c :: text) (c :: resolved) (escapes + 1)

namespace Resolves

variable {text resolved front : List Char} {escapes escapes' : Nat}

/-- Every escape takes one character more than what it stands for. -/
theorem length_eq (h : Resolves text resolved escapes) :
    text.length = resolved.length + escapes := by
  induction h with
  | nil => rfl
  | plain hc h ih | linebreak h ih | escaped hc h ih =>
    simp only [List.length_cons, ih]
    omega

/-- In bytes this is the backslash, which takes one. -/
theorem byteLength_eq (h : Resolves text resolved escapes) :
    byteLength text = byteLength resolved + escapes := by
  have hbackslash : '\\'.utf8Size = 1 := rfl
  have hletter : 'n'.utf8Size = '\n'.utf8Size := rfl
  induction h with
  | nil => rfl
  | plain hc h ih | linebreak h ih | escaped hc h ih =>
    simp only [byteLength_cons, ih]
    omega

/-- The backslash at the end of a text with complete escapes is escaped itself: what stands in front
    of it has an escape that is not complete. -/
theorem ne_concat_backslash (h : Resolves text resolved escapes) {resolved' : List Char}
    (hfront : Resolves front resolved' escapes') : text ≠ front ++ ['\\'] := by
  -- both texts are read in step, so that at the end the backslash is the first of an escape
  induction hfront generalizing text resolved escapes with
  | nil =>
    intro htext
    cases h with
    | nil => cases htext
    | plain hc h => exact hc (List.cons.inj htext).1
    | linebreak h | escaped hc h => cases (List.cons.inj htext).2
  | plain hc hfront ih =>
    intro htext
    cases h with
    | nil => cases htext
    | plain _ h => exact ih h (List.cons.inj htext).2
    | linebreak h | escaped _ h => exact hc (List.cons.inj htext).1.symm
  | linebreak hfront ih | escaped _ hfront ih =>
    intro htext
    cases h with
    | nil => cases htext
    | plain hc h => exact hc (List.cons.inj htext).1
    | linebreak h | escaped _ h => exact ih h (List.cons.inj (List.cons.inj htext).2).2

end Resolves

end Text

/-- What can stand between two quotes has complete escapes only, and they are resolved one by
    one. -/
theorem Lexical.Quoted.exists_resolves {quote : Char} {text : List Char} (h : Quoted quote text) :
    ∃ escapes, Text.Resolves text (Text.unescape text) escapes := by
  induction h with
  | nil => exact ⟨0, .nil⟩
  | plain hquote hbackslash hbreak h ih =>
    obtain ⟨escapes, ih⟩ := ih
    rw [Text.unescape_plain _ hbackslash]
    exact ⟨escapes, .plain hbackslash ih⟩
  | @escaped c text hbreak h ih =>
    obtain ⟨escapes, ih⟩ := ih
    -- an escaped n is a line break, and any other character stands for itself
    by_cases hletter : c = 'n'
    · subst hletter
      exact ⟨escapes + 1, .linebreak ih⟩
    · rw [Text.unescape_escaped _ hletter]
      exact ⟨escapes + 1, .escaped hletter ih⟩

/-! ### The lexer -/

namespace Lexer

open Lexical

/-- The lexer behind the next `n` tokens. -/
def behind (lexer : Lexer) : Nat → Lexer
  | 0 => lexer
  | n + 1 => lexer.next.2.behind n

/-- Whether a lexer is in front of something that is written behind a gap. -/
structure Faces (lexer : Lexer) (front raw behind : List Char) : Prop where
  finished : lexer.finished = false
  rest : lexer.rest = front ++ raw ++ behind
  gap : Gap front (raw ++ behind)

variable {lexer : Lexer} {source : String} {before gap raw text rest : List Char}

/-- Behind some tokens the lexer gives the next one. -/
theorem next_behind (lexer : Lexer) (n : Nat) :
    (lexer.behind n).next = (lexer.nth n, lexer.behind (n + 1)) := by
  induction n generalizing lexer with
  | zero => rfl
  | succ n ih => exact ih lexer.next.2

/-- Behind any number of tokens a lexer stands at some place of its source. -/
theorem Stands.exists_behind (h : lexer.Stands source before) (n : Nat) :
    ∃ before', (lexer.behind n).Stands source before' := by
  induction n generalizing lexer before with
  | zero => exact ⟨before, h⟩
  | succ n ih =>
    obtain ⟨front, hbehind⟩ := (exists_location_next h).2
    exact ih hbehind

/-- What is spelled in front of a lexer is the next token, with its place, and the lexer goes on
    right behind it. -/
theorem Stands.next_of_faces {kind : TokenKind} (h : lexer.Stands source before)
    (hfaces : lexer.Faces gap raw rest) (hspelled : Spelled kind raw text rest) :
    source.toList = before ++ gap ++ raw ++ rest ∧
      lexer.next = (⟨kind, .ofList text, .after (before ++ gap)⟩,
        ⟨rest, .after (before ++ gap ++ raw), false⟩) := by
  have hlocation : lexer.location.shifted (Text.byteLength gap) = .after (before ++ gap) := by
    rw [h.location, Location.after_append before hfaces.gap.linebreak_notMem]
  refine ⟨by simp only [h.rest, hfaces.rest, List.append_assoc], ?_⟩
  rw [next_of_spelled hfaces.finished hfaces.rest hfaces.gap hspelled, hlocation,
    Location.after_spelled _ hspelled]

/-- A token with the kind of literals is the text of a closed literal. -/
theorem Stands.exists_quoted (h : lexer.Stands source before)
    (hkind : lexer.next.1.kind = .string) :
    ∃ quote, IsQuote quote ∧ Quoted quote lexer.next.1.text.toList := by
  cases hfinished : lexer.finished with
  | true =>
    rw [next_of_finished hfinished] at hkind
    cases hkind
  | false =>
    rcases next_of_stands h hfinished with ⟨_, _, _, -, -, -, hnext, -⟩ |
      ⟨kind, gap, raw, text, rest, -, -, hspelled, hnext⟩
    · rw [hnext] at hkind
      cases hkind
    · rw [hnext] at hkind ⊢
      obtain rfl : kind = .string := hkind
      rw [String.toList_ofList]
      -- marks and words have other kinds
      cases hspelled with
      | mark h =>
        have hmark : ∀ mark ∈ marks, mark.2 ≠ .string := by decide
        exact absurd rfl (hmark _ h)
      | string hquote hbody => exact ⟨_, hquote, hbody⟩

/-- **Literals there and back.** A text that is written as a literal, with either quote and where a
    token of a source can begin, is one token whose text is what stands between the quotes; the next
    token is looked for right behind it, and resolving the escapes gives the text. In the other
    direction, the text of every token with the kind of literals is on one line, and no backslash
    in it lacks a character to escape: resolving the escapes takes one character off the text, and
    one byte, for each of them. -/
theorem literals_round_trip (source : String) (n : Nat) :
    (∀ quote text gap rest, IsQuote quote →
      ((ofSource source).behind n).Faces gap (Text.literal quote text) rest →
      ∃ before, source.toList = before ++ Text.literal quote text ++ rest ∧
        (ofSource source).nth n =
          ⟨.string, .ofList (Text.escape quote text), .after before⟩ ∧
        (ofSource source).behind (n + 1) =
          ⟨rest, .after (before ++ Text.literal quote text), false⟩ ∧
        Text.unescape (Text.escape quote text) = text) ∧
    (((ofSource source).nth n).kind = .string →
      let text := ((ofSource source).nth n).text.toList
      '\n' ∉ text ∧
        (∀ front resolved escapes, Text.Resolves front resolved escapes → text ≠ front ++ ['\\']) ∧
        ∃ escapes, Text.Resolves text (Text.unescape text) escapes ∧
          text.length = (Text.unescape text).length + escapes ∧
          Text.byteLength text = Text.byteLength (Text.unescape text) + escapes) := by
  obtain ⟨front, hstands⟩ := (stands_ofSource source).exists_behind n
  have hnext := next_behind (ofSource source) n
  constructor
  · -- what is written is one token, between what the lexer has read and the rest
    intro quote text gap rest hquote hfaces
    obtain ⟨hsource, hliteral⟩ := hstands.next_of_faces hfaces
      (.string hquote (Text.quoted_escape quote text))
    rw [hnext] at hliteral
    obtain ⟨htoken, hbehind⟩ := Prod.mk.inj hliteral
    exact ⟨front ++ gap, hsource, htoken, hbehind, Text.unescape_escape hquote text⟩
  · -- what is read was written between quotes, so no backslash in it stands alone
    intro hkind text
    have htoken : ((ofSource source).behind n).next.1 = (ofSource source).nth n := by rw [hnext]
    obtain ⟨quote, -, hquoted⟩ := hstands.exists_quoted (by rw [htoken, hkind])
    rw [htoken] at hquoted
    obtain ⟨escapes, hresolves⟩ := hquoted.exists_resolves
    exact ⟨hquoted.linebreak_notMem, fun _ _ _ hfront => hresolves.ne_concat_backslash hfront,
      escapes, hresolves, hresolves.length_eq, hresolves.byteLength_eq⟩

/-- A literal with quotes and a line break, behind two tokens. -/
theorem literals_round_trip_hi :
    let lexer := ofSource ".stringz \"say \\\"hi\\\"\\n\"; twice"
    let text := "say \"hi\"\n".toList
    (lexer.behind 2).Faces [' '] (Text.literal '"' text) "; twice".toList ∧
      (∃ before, lexer.nth 2 = ⟨.string, .ofList (Text.escape '"' text), .after before⟩ ∧
        lexer.behind 3 = ⟨"; twice".toList, .after (before ++ Text.literal '"' text), false⟩) ∧
      (lexer.nth 2).kind = .string ∧
      ∃ escapes, (lexer.nth 2).text.toList.length =
        (Text.unescape (lexer.nth 2).text.toList).length + escapes := by
  intro lexer text
  have hfaces : (lexer.behind 2).Faces [' '] (Text.literal '"' text) "; twice".toList :=
    ⟨by decide +kernel, by decide +kernel, .blank (by decide) .nil⟩
  have hkind : (lexer.nth 2).kind = .string := by decide +kernel
  obtain ⟨hwritten, hread⟩ := literals_round_trip ".stringz \"say \\\"hi\\\"\\n\"; twice" 2
  obtain ⟨before, -, htoken, hbehind, -⟩ := hwritten '"' text [' '] _ (.inl rfl) hfaces
  obtain ⟨-, -, escapes, -, hlength, -⟩ := hread hkind
  exact ⟨hfaces, ⟨before, htoken, hbehind⟩, hkind, escapes, hlength⟩

end Lexer

end LC3
