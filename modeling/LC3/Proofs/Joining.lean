import LC3.Proofs.Lowered
import LC3.Proofs.Scanning

namespace LC3

/-!
# Sources one behind the other

A source with a line break and another source behind it is read like the two of them, one after the
other: nothing that a line consists of is changed by the lines around it. Only a NUL outside of
literals and comments would end the source before the second one.

* `Lexical.straysNul` — whether there is such a NUL.
* `Lexer.next_followed` — a line break and what stands behind it do not change a token.
* `Lexer.exists_tokens_join` — the tokens of two sources, one behind the other.
* `TokenLine.exists_parse_iff` — a source can be read exactly if all its lines are lines of the
  grammar.
* `exists_parse_join` — reading two sources, one behind the other.
-/

open Lexical

/-! ### Stray NULs -/

namespace Lexical

/-- What surrounds a character of a source. -/
inductive Surrounding where
  /-- Neither a comment nor a literal. -/
  | code
  /-- A comment. -/
  | comment
  /-- A literal that this quote has opened. -/
  | literal (quote : Char)
  /-- A literal, behind a backslash. -/
  | escape (quote : Char)
deriving DecidableEq

/-- What surrounds the next character. Neither comments nor literals extend over a line break. -/
def Surrounding.after (surrounding : Surrounding) (c : Char) : Surrounding :=
  if c = '\n' then .code
  else
    match surrounding with
    | code => if c = ';' then .comment else if c = '"' ∨ c = '\'' then .literal c else .code
    | comment => .comment
    | literal quote =>
      if c = '\\' then .escape quote else if c = quote then .code else .literal quote
    | escape quote => .literal quote

/-- Whether a text has a NUL outside of literals and comments, given what surrounds its first
    character. -/
def straysNul : Surrounding → List Char → Bool
  | _, [] => false
  | surrounding, c :: text =>
    surrounding = .code && c = '\x00' || straysNul (surrounding.after c) text

/-- At the end of a line it does not matter what surrounds it. -/
theorem straysNul_of_atLineEnd {text : List Char} (surrounding : Surrounding)
    (h : AtLineEnd text) : straysNul surrounding text = straysNul .code text := by
  cases text with
  | nil => rfl
  | cons c text =>
    obtain rfl : c = '\n' := h c rfl
    cases surrounding <;> simp [straysNul, Surrounding.after]

/-- The characters that are NUL, or change what surrounds the next one. -/
private def signs : List Char :=
  ['\n', ';', '"', '\'', '\x00']

/-- Signs are no blanks, and no part of a number or a word. -/
private theorem of_mem_signs : ∀ sign ∈ signs, Lexer.isBlank sign = false ∧
    sign.isDigit = false ∧ Lexeme.isWordPart sign = false := by
  intro sign hsign
  simp only [signs, List.mem_cons, List.not_mem_nil, or_false] at hsign
  rcases hsign with rfl | rfl | rfl | rfl | rfl <;> decide

/-- Any other character leaves everything as it is. -/
private theorem straysNul_cons {c : Char} (text : List Char) (h : c ∉ signs) :
    straysNul .code (c :: text) = straysNul .code text := by
  simp only [signs, List.mem_cons, List.not_mem_nil, or_false, not_or] at h
  simp [straysNul, Surrounding.after, h]

/-- A comment has no stray NUL. -/
private theorem straysNul_comment {text : List Char} (rest : List Char) (h : '\n' ∉ text) :
    straysNul .comment (text ++ rest) = straysNul .comment rest := by
  induction text with
  | nil => rfl
  | cons c text ih =>
    obtain ⟨hc, htext⟩ := not_or.mp (mt List.mem_cons.mpr h)
    simpa [straysNul, Surrounding.after, Ne.symm hc] using ih htext

/-- A gap has no stray NUL. -/
theorem Gap.straysNul_append {gap rest : List Char} (h : Gap gap rest) :
    straysNul .code (gap ++ rest) = straysNul .code rest := by
  induction h with
  | nil => rfl
  | @blank c gap behind hc h ih =>
    rw [List.cons_append, straysNul_cons, ih]
    intro hmem
    exact Bool.false_ne_true ((of_mem_signs c hmem).1.symm.trans hc)
  | @comment text behind htext hbehind =>
    -- a comment ends with its line, and what is behind it is code again
    calc straysNul .code (';' :: text ++ behind)
        = straysNul .comment (text ++ behind) := rfl
      _ = straysNul .comment behind := straysNul_comment behind htext
      _ = straysNul .code behind := straysNul_of_atLineEnd _ hbehind

/-- A quote opens a literal. -/
private theorem straysNul_quote {quote : Char} (text : List Char) (h : IsQuote quote) :
    straysNul .code (quote :: text) = straysNul (.literal quote) text := by
  rcases h with rfl | rfl <;> rfl

/-- What stands between two quotes has no stray NUL. -/
private theorem Quoted.straysNul_append {quote : Char} {text : List Char} (rest : List Char)
    (h : Quoted quote text) :
    straysNul (.literal quote) (text ++ rest) = straysNul (.literal quote) rest := by
  induction h with
  | nil => rfl
  | plain hquote hbackslash hbreak h ih =>
    simpa [straysNul, Surrounding.after, hquote, hbackslash, hbreak] using ih
  | escaped hbreak h ih => simpa [straysNul, Surrounding.after, hbreak] using ih

/-- Characters that continue a word leave everything as it is. -/
private theorem straysNul_word {text : List Char} (rest : List Char)
    (h : ∀ c ∈ text, Lexeme.isWordPart c = true) :
    straysNul .code (text ++ rest) = straysNul .code rest := by
  induction text with
  | nil => rfl
  | cons c text ih =>
    obtain ⟨hc, htext⟩ := List.forall_mem_cons.mp h
    rw [List.cons_append, straysNul_cons, ih htext]
    intro hmem
    exact Bool.false_ne_true ((of_mem_signs c hmem).2.2.symm.trans hc)

/-- A token has no stray NUL. -/
theorem Spelled.straysNul_append {kind : TokenKind} {raw text behind : List Char}
    (h : Spelled kind raw text behind) :
    straysNul .code (raw ++ behind) = straysNul .code behind := by
  cases h with
  | @mark kind c _ h =>
    have hmark : ∀ mark ∈ marks, ∀ behind,
        straysNul .code (mark.1 :: behind) = straysNul .code behind := by
      simp [marks, straysNul, Surrounding.after]
    exact hmark (c, kind) h behind
  | @number c text _ hc htext hbehind =>
    -- neither the first digit nor the others change what a NUL is surrounded by
    have hnumber : ∀ d ∈ text, Lexeme.isWordPart d = true := fun d hd => by
      rw [Lexeme.isWordPart, htext d hd]
      rfl
    rw [List.cons_append, straysNul_cons, straysNul_word behind hnumber]
    intro hmem
    exact Bool.false_ne_true ((of_mem_signs c hmem).2.1.symm.trans hc)
  | @word c text _ hc htext hbehind =>
    have hpart : Lexeme.isWordPart c = true := Lexeme.isWordPart_of_isWordStart hc
    exact straysNul_word behind (List.forall_mem_cons.mpr ⟨hpart, htext⟩)
  | @string quote _ _ hquote hbody =>
    -- from the first quote on a NUL is inside of the literal, up to the second quote
    calc straysNul .code (quote :: (text ++ [quote]) ++ behind)
        = straysNul (.literal quote) (text ++ quote :: behind) := by
          rw [List.cons_append, List.append_assoc]
          exact straysNul_quote _ hquote
      _ = straysNul (.literal quote) (quote :: behind) := hbody.straysNul_append _
      _ = straysNul .code behind := by
          rcases hquote with rfl | rfl <;> rfl
  | @unclosed quote body _ hquote hbody hbehind =>
    -- without a second quote the literal ends with its line, even in the middle of an escape
    have hopen : straysNul .code (quote :: body ++ behind) =
        straysNul (.literal quote) (body ++ behind) := straysNul_quote _ hquote
    rw [hopen]
    cases hbody with
    | quoted h => rw [h.straysNul_append, straysNul_of_atLineEnd _ hbehind]
    | @backslash text h =>
      have hescape : straysNul (.literal quote) ('\\' :: behind) =
          straysNul (.escape quote) behind := rfl
      rw [List.append_assoc, h.straysNul_append, List.singleton_append, hescape,
        straysNul_of_atLineEnd _ hbehind]
  | @stray c _ hblank hsign hmark hmore =>
    refine straysNul_cons behind fun hmem => ?_
    simp only [signs, List.mem_cons, List.not_mem_nil, or_false] at hmem
    simp only [List.mem_cons, List.not_mem_nil, or_false, not_or] at hsign
    rcases hmem with rfl | rfl | rfl | rfl | rfl
    · exact hmark (by decide)
    · exact hsign.1 rfl
    · exact hmore (.inr (.inr (.inl rfl)))
    · exact hmore (.inr (.inr (.inr rfl)))
    · exact hsign.2 rfl

end Lexical

/-! ### Splitting two sources -/

namespace Lexer

/-- What is passed over in front of a token does not depend on the lines behind. -/
private theorem blankLength_append (comment : Bool) (text more : List Char) :
    blankLength comment (text ++ '\n' :: more) = blankLength comment text := by
  induction text generalizing comment with
  | nil => cases comment <;> rfl
  | cons c text ih => simp only [List.cons_append, blankLength, ih]

end Lexer

/-- A run of characters does not depend on what stands behind the line. -/
private theorem takeWhile_append_linebreak {p : Char → Bool} (text more : List Char)
    (h : p '\n' = false) : (text ++ '\n' :: more).takeWhile p = text.takeWhile p := by
  induction text with
  | nil => simp [h]
  | cons c text ih => simp only [List.cons_append, List.takeWhile_cons, ih]

/-- A literal does not depend on the lines behind. -/
private theorem Quotation.ofText_append (quote : Char) (text more : List Char) :
    ofText quote (text ++ '\n' :: more) = ofText quote text := by
  -- a backslash has something to take along, or it ends the line
  have hplain : ∀ {c : Char} {text : List Char}, (c = '\\' → text = [] → False) →
      (∀ d rest, c = '\\' → text = d :: rest → False) → c ≠ '\\' := by
    intro c text hlast hescape h
    cases text with
    | nil => exact hlast h rfl
    | cons d rest => exact hescape d rest h rfl
  fun_induction ofText quote text with
  | case1 | case2 | case3 | case4 => rfl
  | case5 c text hbreak ih =>
    rw [List.cons_append, List.cons_append, ofText, ih]
    exact hbreak
  | case6 text hbreak hlast _ hescape =>
    rw [List.cons_append, ofText_cons _ hbreak (hplain hlast hescape), if_pos rfl]
  | case7 c text hbreak hlast _ hescape hquote ih =>
    rw [List.cons_append, ofText_cons _ hbreak (hplain hlast hescape), if_neg hquote, ih]

/-- A token does not depend on the lines behind. -/
private theorem Lexeme.ofText_append (c : Char) (text more : List Char) :
    ofText c (text ++ '\n' :: more) = ofText c text := by
  have hnumber := takeWhile_append_linebreak text more (show Char.isAlphanum '\n' = false by decide)
  have hword := takeWhile_append_linebreak text more (show isWordPart '\n' = false by decide)
  unfold ofText
  split <;> simp only [hnumber, hword, Quotation.ofText_append]

namespace Lexer

/-- A lexer whose source goes on with a line break and other text. -/
def followed (more : List Char) (lexer : Lexer) : Lexer :=
  { lexer with rest := lexer.rest ++ '\n' :: more }

/-- The head of a text is read as if the text ended with its line. -/
private theorem scan_append {c : Char} {text : List Char} (more : List Char) (location : Location)
    (hlength : (Lexeme.ofText c text).length ≤ (c :: text).length) :
    scan c (text ++ '\n' :: more) location =
      ((scan c text location).1, (scan c text location).2.followed more) := by
  have htake : (c :: (text ++ '\n' :: more)).take (Lexeme.ofText c text).length =
      (c :: text).take (Lexeme.ofText c text).length :=
    List.take_append_of_le_length hlength
  have hdrop : (c :: (text ++ '\n' :: more)).drop (Lexeme.ofText c text).length =
      (c :: text).drop (Lexeme.ofText c text).length ++ '\n' :: more :=
    List.drop_append_of_le_length hlength
  have hextract : (Lexeme.ofText c text).extract (c :: (text ++ '\n' :: more)) =
      (Lexeme.ofText c text).extract (c :: text) := by
    simp only [Lexeme.extract, htake]
  simp only [scan, Lexeme.ofText_append, htake, hdrop, hextract]
  rfl

/-- What stands behind the gap in front of a lexer: the end of the source, or a token. -/
private theorem exists_head {lexer : Lexer} (hfinished : lexer.finished = false) :
    ∃ gap rest, lexer.rest = gap ++ rest ∧ blankLength false lexer.rest = gap.length ∧
      Gap gap rest ∧
      (AtEnd rest ∧ lexer.next.1.kind = .sourceEnd ∨
        lexer.next.1.kind ≠ .sourceEnd ∧ ∃ c text, rest = c :: text ∧ c ≠ '\x00' ∧
          (Lexeme.ofText c text).length ≤ (c :: text).length) := by
  obtain ⟨gap, rest, hrest, hlength, hgap, hhead⟩ := exists_gap lexer.rest
  refine ⟨gap, rest, hrest, hlength, hgap, ?_⟩
  by_cases hatEnd : AtEnd rest
  · refine .inl ⟨hatEnd, ?_⟩
    rw [(next_of_atEnd hfinished hrest hgap hatEnd).1]
    rfl
  · -- the lexer finds a character that some token starts with
    cases rest with
    | nil => exact absurd nofun hatEnd
    | cons c text =>
      have hnul : c ≠ '\x00' := fun h => hatEnd fun d hd => (Option.some.inj hd).symm.trans h
      obtain ⟨hblank, hcomment⟩ := hhead c rfl
      obtain ⟨raw, inner, behind, htext, hraw, hspelled, -⟩ :=
        exists_spelled text hblank (by simp [hcomment, hnul])
      refine .inr ⟨?_, c, text, rfl, hnul, ?_⟩
      · rw [next_eq_scan hfinished hrest hlength hnul]
        exact hspelled.ne_sourceEnd
      · rw [hraw, htext, List.length_append]
        exact Nat.le_add_right _ _

variable {lexer : Lexer} (more : List Char)

/-- The blanks in front of a token do not depend on the lines behind. -/
private theorem blankLength_followed :
    blankLength false (lexer.followed more).rest = blankLength false lexer.rest :=
  blankLength_append false lexer.rest more

/-- **A token does not depend on the lines behind.** -/
theorem next_followed (hfinished : lexer.finished = false)
    (htoken : lexer.next.1.kind ≠ .sourceEnd) :
    (lexer.followed more).next = (lexer.next.1, lexer.next.2.followed more) := by
  have hfinished' : (lexer.followed more).finished = false := hfinished
  obtain ⟨gap, rest, hrest, hlength, -, ⟨-, hend⟩ | ⟨-, c, text, rfl, hnul, hle⟩⟩ :=
    exists_head hfinished
  · exact absurd hend htoken
  · have hrest' : (lexer.followed more).rest = gap ++ c :: (text ++ '\n' :: more) := by
      show lexer.rest ++ '\n' :: more = _
      rw [hrest, List.append_assoc, List.cons_append]
    rw [next_eq_scan hfinished hrest hlength hnul,
      next_eq_scan hfinished' hrest' ((blankLength_followed more).trans hlength) hnul]
    exact scan_append more _ hle

/-- Behind the last token of a source there is the line break, and behind it the other text. -/
theorem next_followed_end (hfinished : lexer.finished = false)
    (hnul : straysNul .code lexer.rest = false) (hend : lexer.next.1.kind = .sourceEnd) :
    ∃ location, (lexer.followed more).next =
      (⟨.linebreak, "\n", location⟩, ⟨more, location.nextLine, false⟩) := by
  have hfinished' : (lexer.followed more).finished = false := hfinished
  obtain ⟨gap, rest, hrest, hlength, hgap, ⟨hatEnd, -⟩ | ⟨htoken, -⟩⟩ := exists_head hfinished
  · -- a NUL would be a stray one, so that the text is used up
    rw [hrest, hgap.straysNul_append] at hnul
    cases rest with
    | cons c text =>
      obtain rfl := hatEnd c rfl
      cases hnul
    | nil =>
      have hrest' : (lexer.followed more).rest = gap ++ '\n' :: more := by
        show lexer.rest ++ '\n' :: more = _
        rw [hrest, List.append_nil]
      rw [next_eq_scan hfinished' hrest' ((blankLength_followed more).trans hlength) (by decide)]
      exact ⟨_, rfl⟩
  · exact absurd hend htoken

/-- Behind a token there is no stray NUL if there is none in front of it. -/
theorem straysNul_next (hfinished : lexer.finished = false)
    (hnul : straysNul .code lexer.rest = false) (htoken : lexer.next.1.kind ≠ .sourceEnd) :
    straysNul .code lexer.next.2.rest = false := by
  have hfinds := finds_next hfinished
  generalize lexer.next = result at hfinds htoken
  cases hfinds with
  | finish => exact absurd rfl htoken
  | token hrest hgap hspelled _ =>
    rwa [hrest, List.append_assoc, hgap.straysNul_append, hspelled.straysNul_append] at hnul

/-! ### All tokens -/

/-- Taking more tokens than there are characters takes all of them. -/
private theorem take_eq_of_lt {lexer : Lexer} {limit limit' : Nat}
    (hlimit : lexer.rest.length < limit) (hlimit' : lexer.rest.length < limit') :
    (lexer.take limit).1 = (lexer.take limit').1 := by
  induction limit generalizing lexer limit' with
  | zero => exact absurd hlimit (Nat.not_lt_zero _)
  | succ limit ih =>
    obtain ⟨limit', rfl⟩ := Nat.exists_eq_add_one_of_ne_zero (Nat.ne_zero_of_lt hlimit')
    cases hfinished : lexer.finished with
    | true => rw [take_of_finished hfinished, take_of_finished hfinished]
    | false =>
      rw [take_succ hfinished, take_succ hfinished]
      rcases next_cases hfinished with ⟨-, hbehind⟩ | ⟨-, -, hshorter⟩
      · rw [take_of_finished hbehind, take_of_finished hbehind]
      · -- the token takes a character at least, so fewer are left
        rw [@ih lexer.next.2 limit' (by omega) (by omega)]

/-- The tokens of a lexer are the first one and those behind it. -/
private theorem tokens_eq_cons {lexer : Lexer} (hfinished : lexer.finished = false) :
    lexer.tokens.1 = lexer.next.1 :: lexer.next.2.tokens.1 := by
  rw [tokens, take_succ hfinished, tokens]
  rcases next_cases hfinished with ⟨-, hbehind⟩ | ⟨-, -, hshorter⟩
  · rw [take_of_finished hbehind, take_of_finished hbehind]
  · rw [take_eq_of_lt hshorter (Nat.lt_succ_self _)]

theorem tokens_lowered (depth : Depth) (lexer : Lexer) :
    (lexer.lowered depth).tokens.1 = lexer.tokens.1.map (Token.lowered depth) :=
  take_lowered depth lexer _

/-- What is read of two texts: the tokens of the first without its end, a line break, and the tokens
    of the second from there. -/
theorem exists_tokens_followed {lexer : Lexer} (more : List Char)
    (hfinished : lexer.finished = false) (hnul : straysNul .code lexer.rest = false) :
    ∃ body last location, lexer.tokens.1 = body ++ [last] ∧ last.kind = .sourceEnd ∧
      (∀ token ∈ body, token.kind ≠ .sourceEnd) ∧
      (lexer.followed more).tokens.1 =
        body ++ ⟨.linebreak, "\n", location⟩ ::
          (⟨more, location.nextLine, false⟩ : Lexer).tokens.1 := by
  -- the induction is on the characters that are left, of which every token takes one
  induction hlength : lexer.rest.length using Nat.strong_induction_on generalizing lexer with
  | _ length ih =>
    have hfinished' : (lexer.followed more).finished = false := hfinished
    rw [tokens_eq_cons hfinished, tokens_eq_cons hfinished']
    rcases next_cases hfinished with ⟨hkind, hbehind⟩ | ⟨hkind, hbehind, hshorter⟩
    · -- the first text ends here, and the line break comes instead
      obtain ⟨location, hnext⟩ := next_followed_end more hfinished hnul hkind
      refine ⟨[], lexer.next.1, location, ?_, hkind, List.forall_mem_nil _, ?_⟩
      · rw [tokens, take_of_finished hbehind]
        rfl
      · rw [hnext]
        rfl
    · -- the token is the same, and the texts are joined behind it
      obtain ⟨body, last, location, htokens, hlast, hbody, hfollowed⟩ :=
        ih _ (hlength ▸ hshorter) hbehind (straysNul_next hfinished hnul hkind) rfl
      refine ⟨lexer.next.1 :: body, last, location, ?_, hlast,
        List.forall_mem_cons.mpr ⟨hkind, hbody⟩, ?_⟩
      · rw [htokens, List.cons_append]
      · rw [next_followed more hfinished hkind, hfollowed, List.cons_append]

/-- **The tokens of two sources**, one behind the other with a line break between them: the second
    starts at the beginning of a line. -/
theorem exists_tokens_join {first : String} (second : String)
    (hnul : straysNul .code first.toList = false) :
    ∃ body last linebreak depth, (ofSource first).tokens.1 = body ++ [last] ∧
      last.kind = .sourceEnd ∧ (∀ token ∈ body, token.kind ≠ .sourceEnd) ∧
      linebreak.kind = .linebreak ∧
      (ofSource (first ++ "\n" ++ second)).tokens.1 =
        body ++ linebreak :: (ofSource second).tokens.1.map (Token.lowered depth) := by
  obtain ⟨body, last, location, htokens, hlast, hbody, hfollowed⟩ :=
    @exists_tokens_followed (ofSource first) second.toList rfl hnul
  have hjoined : ofSource (first ++ "\n" ++ second) =
      (ofSource first).followed second.toList := by
    simp [ofSource, followed]
  -- the second text starts on the line behind, as if it stood alone further down
  have hsecond : (⟨second.toList, location.nextLine, false⟩ : Lexer) =
      (ofSource second).lowered ⟨location.line, location.offset + 1⟩ := by
    simp [ofSource, lowered, Location.lowered, Location.start, Location.nextLine, Nat.add_comm]
  refine ⟨body, last, ⟨.linebreak, "\n", location⟩, ⟨location.line, location.offset + 1⟩,
    htokens, hlast, hbody, rfl, ?_⟩
  rw [hjoined, hfollowed, hsecond, tokens_lowered]

end Lexer

/-! ### Lines -/

namespace TokenLine

/-- A token that ends no line joins the first of the lines behind it. -/
theorem map_body_split_cons {token : Token} (tokens : List Token)
    (h : ¬ Grammar.EndsLine token) :
    (split (token :: tokens)).map body = ((split tokens).map body).modifyHead (token :: ·) := by
  rw [split, dif_neg h]
  cases split tokens <;> rfl

/-- A token that ends a line ends an empty one in front of the lines behind it. -/
theorem map_body_split_ends {token : Token} (tokens : List Token)
    (h : Grammar.EndsLine token) :
    (split (token :: tokens)).map body = [] :: (split tokens).map body := by
  rw [split, dif_pos h]
  rfl

/-- Tokens up to a line break, and those behind it, fall into lines of their own. Whether the line
    in between ends with the line break or with the source makes no difference to its other
    tokens. -/
private theorem map_body_split {before : List Token} {last linebreak : Token} (rest : List Token)
    (hlast : last.kind = .sourceEnd) (hlinebreak : linebreak.kind = .linebreak) :
    (split (before ++ [last])).map body ≠ [] ∧
      (split (before ++ linebreak :: rest)).map body =
        (split (before ++ [last])).map body ++ (split rest).map body := by
  induction before with
  | nil =>
    have hends : Grammar.EndsLine linebreak := .inl hlinebreak
    have hends' : Grammar.EndsLine last := .inr hlast
    rw [List.nil_append, List.nil_append, map_body_split_ends _ hends,
      map_body_split_ends _ hends']
    exact ⟨List.cons_ne_nil _ _, rfl⟩
  | cons token before ih =>
    obtain ⟨hne, hsplit⟩ := ih
    rw [List.cons_append, List.cons_append]
    by_cases hends : Grammar.EndsLine token
    · -- the token ends a line, which stands in front of the others
      rw [map_body_split_ends _ hends, map_body_split_ends _ hends, hsplit]
      exact ⟨List.cons_ne_nil _ _, rfl⟩
    · -- the token joins the first line, of which there is always one
      rw [map_body_split_cons _ hends, map_body_split_cons _ hends, hsplit]
      obtain ⟨first, others, hfirst⟩ := List.exists_cons_of_ne_nil hne
      rw [hfirst]
      exact ⟨List.cons_ne_nil _ _, rfl⟩

/-- A source can be read exactly if all its lines are lines of the grammar, and then its tree is
    made of their nodes. -/
theorem exists_parse_iff {source : String} {tree : Node} :
    (∃ result, parse source = .ok result ∧ result.outcome = .ok tree) ↔
      ∃ nodes, List.Forall₂ Grammar.Line ((ofSource source).map body) nodes ∧
        tree = .root nodes.flatten := by
  constructor
  · rintro ⟨result, hparse, hout⟩
    obtain ⟨hlines, htree⟩ := lines_of_parse hparse hout
    refine ⟨(ofSource source).map nodes, ?_, by rw [htree, List.flatMap_def]⟩
    rw [List.forall₂_map_left_iff, List.forall₂_map_right_iff, List.forall₂_same]
    exact hlines
  · rintro ⟨nodes, hlines, rfl⟩
    rw [List.forall₂_map_left_iff] at hlines
    -- the nodes of a line are those that the grammar gives it
    have hread : ∀ {lines : List TokenLine} {nodes}, List.Forall₂ (fun line nodes =>
        Grammar.Line line.body nodes) lines nodes →
          lines.countP fails = 0 ∧ lines.flatMap TokenLine.nodes = nodes.flatten := by
      intro lines nodes h
      induction h with
      | nil => exact ⟨rfl, rfl⟩
      | cons hline _ ih =>
        obtain ⟨hnodes, hfails⟩ := nodes_of_line hline
        rw [List.countP_cons, List.flatMap_cons, List.flatten_cons, hnodes, hfails, ih.2]
        exact ⟨by simpa using ih.1, rfl⟩
    obtain ⟨hnone, hnodes⟩ := hread hlines
    obtain ⟨context, result, -, hreads, hparse, hproduct, hnotices⟩ := exists_parse source
    have herrors : result.errors = (ofSource source).countP fails := by
      rw [StageResult.errors, hnotices, hreads.countP_isError]
    refine ⟨result, hparse, StageResult.outcome_eq_ok_iff.mpr ⟨herrors.trans hnone, ?_⟩⟩
    rw [hproduct, hreads.nodes, hnodes]

end TokenLine

/-- **Two sources are read like each of them**, one behind the other: the nodes of the second are
    only further down. -/
theorem exists_parse_join {first second : String} {tree tree' : Node}
    (hnul : straysNul .code first.toList = false)
    (hfirst : ∃ result, parse first = .ok result ∧ result.outcome = .ok tree)
    (hsecond : ∃ result, parse second = .ok result ∧ result.outcome = .ok tree') :
    ∃ depth result, parse (first ++ "\n" ++ second) = .ok result ∧
      result.outcome = .ok (.root (tree.children ++ tree'.children.map (Node.lowered depth))) := by
  obtain ⟨before, last, linebreak, depth, htokens, hlast, -, hlinebreak, hjoined⟩ :=
    Lexer.exists_tokens_join second hnul
  obtain ⟨nodes, hlines, rfl⟩ := TokenLine.exists_parse_iff.mp hfirst
  obtain ⟨nodes', hlines', rfl⟩ := TokenLine.exists_parse_iff.mp hsecond
  refine ⟨depth, TokenLine.exists_parse_iff.mpr
    ⟨nodes ++ nodes'.map (List.map (Node.lowered depth)), ?_, ?_⟩⟩
  · -- the lines of both are lines of the grammar, those of the second further down
    rw [TokenLine.ofSource, hjoined, (TokenLine.map_body_split _ hlast hlinebreak).2, ← htokens,
      TokenLine.split_map_lowered, List.map_map]
    refine List.rel_append hlines ?_
    rw [List.forall₂_map_left_iff] at hlines' ⊢
    rw [List.forall₂_map_right_iff]
    exact hlines'.imp fun _ _ h => Grammar.Line.moves h
  · rw [List.flatten_append, ← List.map_flatten]
    rfl

end LC3
