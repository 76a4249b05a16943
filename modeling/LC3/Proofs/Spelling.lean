import LC3.Token.Lexer
import Mathlib.Data.List.TakeWhile

namespace LC3

/-!
# The spelling of tokens

How the tokens of a source are written, and what can stand between them. A token and a gap are told
by their characters and by what stands behind them, so that none of them can end too early.

* `Lexical.Gap` — what separates tokens: blanks, and comments up to the end of the line.
* `Lexical.Spelled` — how the tokens of each kind are written, and which text they have.
* `Lexical.exists_gap`, `Lexical.exists_spelled` — the lexer stops at the end of a gap, and at the
  end of a token.
* `Lexer.finds_next` — what a lexer gives, and where it goes on.
-/

namespace Lexical

/-! ### Gaps -/

/-- Whether nothing is left of a line in front of a text. -/
def AtLineEnd (text : List Char) : Prop :=
  ∀ c ∈ text.head?, c = '\n'

/-- What separates tokens, in front of the text behind it: blanks, and possibly a comment, which
    reaches up to the end of the line whatever it consists of. -/
inductive Gap : List Char → List Char → Prop where
  | nil {behind : List Char} : Gap [] behind
  | blank {c : Char} {gap behind : List Char} (hc : Lexer.isBlank c = true) (h : Gap gap behind) :
    Gap (c :: gap) behind
  | comment {text behind : List Char} (htext : '\n' ∉ text) (hbehind : AtLineEnd behind) :
    Gap (';' :: text) behind

/-- A gap is on one line. -/
theorem Gap.linebreak_notMem {gap behind : List Char} (h : Gap gap behind) : '\n' ∉ gap := by
  induction h with
  | nil => exact List.not_mem_nil
  | blank hc h ih =>
    refine List.not_mem_cons_of_ne_of_not_mem ?_ ih
    rintro rfl
    exact absurd hc (by decide)
  | comment htext hbehind => exact List.not_mem_cons_of_ne_of_not_mem (by decide) htext

/-- A comment is passed over up to the end of its line. -/
private theorem exists_comment (text : List Char) :
    ∃ comment rest, text = comment ++ rest ∧ Lexer.blankLength true text = comment.length ∧
      '\n' ∉ comment ∧ AtLineEnd rest := by
  induction text with
  | nil => exact ⟨[], [], rfl, rfl, List.not_mem_nil, nofun⟩
  | cons c text ih =>
    by_cases hbreak : c = '\n'
    · refine ⟨[], c :: text, rfl, by simp [Lexer.blankLength, hbreak], List.not_mem_nil, ?_⟩
      simpa [AtLineEnd] using hbreak
    · obtain ⟨comment, rest, rfl, hlength, hcomment, hrest⟩ := ih
      refine ⟨c :: comment, rest, rfl, by simp [Lexer.blankLength, hbreak, hlength], ?_, hrest⟩
      exact List.not_mem_cons_of_ne_of_not_mem (Ne.symm hbreak) hcomment

/-- **A gap is passed over.** What is left in front of the first token of a text is a gap, and the
    next character belongs to none. -/
theorem exists_gap (text : List Char) :
    ∃ gap rest, text = gap ++ rest ∧ Lexer.blankLength false text = gap.length ∧ Gap gap rest ∧
      ∀ c ∈ rest.head?, Lexer.isBlank c = false ∧ c ≠ ';' := by
  induction text with
  | nil => exact ⟨[], [], rfl, rfl, .nil, nofun⟩
  | cons c text ih =>
    cases hblank : Lexer.isBlank c with
    | true =>
      obtain ⟨gap, rest, rfl, hlength, hgap, hrest⟩ := ih
      refine ⟨c :: gap, rest, rfl, ?_, .blank hblank hgap, hrest⟩
      simp [Lexer.blankLength, hblank, hlength]
    | false =>
      by_cases hcomment : c = ';'
      · -- a comment belongs to it, up to the end of its line
        obtain ⟨comment, rest, rfl, hlength, hbreak, hend⟩ := exists_comment text
        subst hcomment
        refine ⟨';' :: comment, rest, rfl, ?_, .comment hbreak hend, ?_⟩
        · simp [Lexer.blankLength, hlength, show Lexer.isBlank ';' = false by decide]
        · -- what follows a comment is a line break, if anything
          intro c hc
          obtain rfl := hend c hc
          decide
      · refine ⟨[], c :: text, rfl, by simp [Lexer.blankLength, hblank, hcomment], .nil, ?_⟩
        simpa using ⟨hblank, hcomment⟩

/-! ### Literals -/

/-- The two characters that open a literal, and close it again. -/
def IsQuote (c : Char) : Prop :=
  c = '"' ∨ c = '\''

/-- What can stand between two quotes. A backslash takes the character after it along, so that one
    can be the quote. -/
inductive Quoted (quote : Char) : List Char → Prop where
  | nil : Quoted quote []
  | plain {c : Char} {text : List Char} (hquote : c ≠ quote) (hbackslash : c ≠ '\\')
    (hbreak : c ≠ '\n') (h : Quoted quote text) : Quoted quote (c :: text)
  | escaped {c : Char} {text : List Char} (hbreak : c ≠ '\n') (h : Quoted quote text) :
    Quoted quote ('\\' :: c :: text)

/-- What can stand behind a quote that is never closed: the same, and possibly a backslash at the
    end of the line that has nothing to take along. -/
inductive Unclosed (quote : Char) : List Char → Prop where
  | quoted {text : List Char} (h : Quoted quote text) : Unclosed quote text
  | backslash {text : List Char} (h : Quoted quote text) : Unclosed quote (text ++ ['\\'])

/-- A literal is on one line. -/
theorem Quoted.linebreak_notMem {quote : Char} {text : List Char} (h : Quoted quote text) :
    '\n' ∉ text := by
  induction h with
  | nil => exact List.not_mem_nil
  | plain hquote hbackslash hbreak h ih =>
    exact List.not_mem_cons_of_ne_of_not_mem (Ne.symm hbreak) ih
  | escaped hbreak h ih =>
    exact List.not_mem_cons_of_ne_of_not_mem (by decide)
      (List.not_mem_cons_of_ne_of_not_mem (Ne.symm hbreak) ih)

/-- A literal that is never closed stays on its line. -/
theorem Unclosed.linebreak_notMem {quote : Char} {text : List Char} (h : Unclosed quote text) :
    '\n' ∉ text := by
  cases h with
  | quoted h => exact h.linebreak_notMem
  | backslash h =>
    rw [List.mem_append, not_or]
    exact ⟨h.linebreak_notMem, by decide⟩

/-- What reading a literal finds behind its opening quote: the rest of a closed literal, or all of
    the line. -/
inductive Found (quote : Char) : Quotation → List Char → Prop where
  | closed {body rest : List Char} (h : Quoted quote body) :
    Found quote ⟨true, body.length + 1⟩ (body ++ quote :: rest)
  | unclosed {body rest : List Char} (h : Unclosed quote body) (hrest : AtLineEnd rest) :
    Found quote ⟨false, body.length⟩ (body ++ rest)

/-- A literal with more in front of it. -/
private theorem Found.extend {quote : Char} {quotation : Quotation} {text : List Char}
    (front : List Char) (h : Found quote quotation text)
    (hfront : ∀ body, Quoted quote body → Quoted quote (front ++ body)) :
    Found quote (quotation.extend front.length) (front ++ text) := by
  cases h with
  | @closed body rest h =>
    rw [← List.append_assoc]
    have := @Found.closed quote (front ++ body) rest (hfront body h)
    rwa [List.length_append, Nat.add_assoc] at this
  | @unclosed body rest h hrest =>
    have hbody : Unclosed quote (front ++ body) := by
      cases h with
      | quoted h => exact .quoted (hfront _ h)
      | backslash h =>
        rw [← List.append_assoc]
        exact .backslash (hfront _ h)
    have := Found.unclosed hbody hrest
    rwa [List.length_append, List.append_assoc] at this

/-- Reading a literal stops at the quote that closes it, or at the end of the line. -/
theorem found_ofText (quote : Char) (text : List Char) :
    Found quote (Quotation.ofText quote text) text := by
  fun_induction Quotation.ofText quote text with
  -- the text is over
  | case1 => exact @Found.unclosed quote [] [] (.quoted .nil) nofun
  | case2 text =>
    -- the line is over
    exact @Found.unclosed quote [] _ (.quoted .nil) fun c hc => (Option.some.inj hc).symm
  -- the text is over behind a backslash
  | case3 => exact @Found.unclosed quote ['\\'] [] (.backslash .nil) nofun
  | case4 text =>
    -- the line is over behind a backslash
    exact @Found.unclosed quote ['\\'] _ (.backslash .nil) fun c hc => (Option.some.inj hc).symm
  -- an escaped character
  | case5 c text hbreak ih => exact ih.extend ['\\', c] fun _ h => .escaped hbreak h
  -- the quote that closes the literal
  | case6 text => exact @Found.closed quote [] text .nil
  | case7 c text hbreak hlast _ hescape hquote ih =>
    -- any other character, which is no backslash: that is read with what follows it
    have hbackslash : c ≠ '\\' := by
      intro h
      cases text with
      | nil => exact hlast h rfl
      | cons d text => exact hescape d text h rfl
    exact ih.extend [c] fun _ h => .plain hquote hbackslash hbreak h

/-! ### Tokens -/

/-- The characters that are tokens of their own. -/
def marks : List (Char × TokenKind) :=
  [(',', .comma), ('.', .period), ('#', .pound), (':', .colon), ('-', .minus), ('\n', .linebreak)]

/-- Whether a character starts a token that is more than this character. -/
def StartsMore (c : Char) : Prop :=
  c.isDigit = true ∨ Lexeme.isWordStart c = true ∨ IsQuote c

/-- How a token of a kind is written, and the text it has, in front of what stands behind it. Only a
    closed literal leaves out something of what is written: its quotes. Numbers and words go on as
    long as they can. -/
inductive Spelled : TokenKind → List Char → List Char → List Char → Prop where
  | mark {kind : TokenKind} {c : Char} {behind : List Char} (h : (c, kind) ∈ marks) :
    Spelled kind [c] [c] behind
  | number {c : Char} {text behind : List Char} (hc : c.isDigit = true)
    (htext : ∀ d ∈ text, d.isAlphanum = true) (hbehind : ∀ d ∈ behind.head?, d.isAlphanum = false) :
    Spelled .number (c :: text) (c :: text) behind
  | word {c : Char} {text behind : List Char} (hc : Lexeme.isWordStart c = true)
    (htext : ∀ d ∈ text, Lexeme.isWordPart d = true)
    (hbehind : ∀ d ∈ behind.head?, Lexeme.isWordPart d = false) :
    Spelled .word (c :: text) (c :: text) behind
  | string {quote : Char} {body behind : List Char} (hquote : IsQuote quote)
    (hbody : Quoted quote body) : Spelled .string (quote :: (body ++ [quote])) body behind
  | unclosed {quote : Char} {body behind : List Char} (hquote : IsQuote quote)
    (hbody : Unclosed quote body) (hbehind : AtLineEnd behind) :
    Spelled .unknown (quote :: body) (quote :: body) behind
  | stray {c : Char} {behind : List Char} (hblank : Lexer.isBlank c = false)
    (hsign : c ∉ [';', '\x00']) (hmark : c ∉ marks.map Prod.fst) (hmore : ¬ StartsMore c) :
    Spelled .unknown [c] [c] behind

/-- Marks are neither literals nor ends of the source, and only one is a line break. -/
private theorem of_mem_marks : ∀ mark ∈ marks, mark.2 ≠ .string ∧ mark.2 ≠ .sourceEnd ∧
    mark.1 ≠ '\x00' ∧ (mark.1 = '\n' ↔ mark.2 = .linebreak) := by
  decide

namespace Spelled

variable {kind : TokenKind} {raw text behind : List Char}

theorem ne_nil (h : Spelled kind raw text behind) : raw ≠ [] := by
  cases h <;> exact List.cons_ne_nil _ _

/-- Nothing is written as the end of the source. -/
theorem ne_sourceEnd (h : Spelled kind raw text behind) : kind ≠ .sourceEnd := by
  cases h with
  | mark h => exact (of_mem_marks _ h).2.1
  | _ => exact TokenKind.noConfusion

/-- A literal is written with its quotes. -/
theorem exists_quote (h : Spelled .string raw text behind) :
    ∃ quote, IsQuote quote ∧ raw = quote :: (text ++ [quote]) := by
  cases h with
  | mark h => exact absurd rfl (of_mem_marks _ h).1
  | string hquote hbody => exact ⟨_, hquote, rfl⟩

/-- All other tokens are written as they are. -/
theorem eq_raw (h : Spelled kind raw text behind) (hkind : kind ≠ .string) : text = raw := by
  cases h with
  | string => exact absurd rfl hkind
  | _ => rfl

/-- A character that none of a text is, and not the first one, is not in a token. -/
private theorem notMem_cons {p : Char → Bool} {c d : Char} {text : List Char} (hc : c ≠ d)
    (hp : p d = false) (htext : ∀ d ∈ text, p d = true) : d ∉ c :: text := by
  refine List.not_mem_cons_of_ne_of_not_mem hc.symm fun hd => ?_
  rw [htext d hd] at hp
  exact Bool.noConfusion hp

/-- A line break is a token of its own. -/
theorem raw_of_linebreak (h : Spelled .linebreak raw text behind) : raw = ['\n'] := by
  cases h with
  | mark h =>
    obtain rfl := (of_mem_marks _ h).2.2.2.mpr rfl
    rfl

/-- No token but a line break extends over one. -/
theorem linebreak_notMem (h : Spelled kind raw text behind) (hkind : kind ≠ .linebreak) :
    '\n' ∉ raw := by
  cases h with
  | mark h =>
    rw [List.mem_singleton, eq_comm, (of_mem_marks _ h).2.2.2]
    exact hkind
  | number hc htext hbehind =>
    exact notMem_cons (by rintro rfl; exact absurd hc (by decide)) (by decide) htext
  | word hc htext hbehind =>
    exact notMem_cons (by rintro rfl; exact absurd hc (by decide)) (by decide) htext
  | @string quote body _ hquote hbody =>
    have hbreak : '\n' ≠ quote := by rcases hquote with rfl | rfl <;> decide
    refine List.not_mem_cons_of_ne_of_not_mem hbreak ?_
    rw [List.mem_append, List.mem_singleton, not_or]
    exact ⟨hbody.linebreak_notMem, hbreak⟩
  | unclosed hquote hbody hbehind =>
    refine List.not_mem_cons_of_ne_of_not_mem ?_ hbody.linebreak_notMem
    rcases hquote with rfl | rfl <;> decide
  | stray hblank hsign hmark hmore =>
    -- a stray character is no mark, so no line break
    rw [List.mem_singleton]
    rintro rfl
    exact hmark (by decide)

/-- NUL is part of no token but a literal, which can also be one that is never closed. -/
theorem isLiteral_of_nul_mem (h : Spelled kind raw text behind) (hnul : '\x00' ∈ text) :
    kind = .string ∨ kind = .unknown ∧ ∃ c ∈ text.head?, IsQuote c := by
  cases h with
  -- no mark is NUL, and no part of numbers or words is
  | mark h => exact absurd (List.mem_singleton.mp hnul).symm (of_mem_marks _ h).2.2.1
  | number hc htext hbehind =>
    exact absurd hnul (notMem_cons (by rintro rfl; exact absurd hc (by decide)) (by decide) htext)
  | word hc htext hbehind =>
    exact absurd hnul (notMem_cons (by rintro rfl; exact absurd hc (by decide)) (by decide) htext)
  | string hquote hbody => exact .inl rfl
  | unclosed hquote hbody hbehind => exact .inr ⟨rfl, _, rfl, hquote⟩
  | stray hblank hsign hmark hmore =>
    obtain rfl := List.mem_singleton.mp hnul
    exact absurd (by decide) hsign

end Spelled

/-- The first characters of a text that have a property. -/
private theorem exists_run (p : Char → Bool) (text : List Char) :
    ∃ run rest, text = run ++ rest ∧ text.takeWhile p = run ∧ (∀ c ∈ run, p c = true) ∧
      ∀ c ∈ rest.head?, p c = false := by
  refine ⟨text.takeWhile p, text.dropWhile p, List.takeWhile_append_dropWhile.symm, rfl,
    fun c hc => List.mem_takeWhile_imp hc, fun c hc => ?_⟩
  have := List.head?_dropWhile_not p text
  rw [Option.mem_def.mp hc] at this
  exact this

/-- The text of a literal is what stands between its quotes. -/
private theorem extract_string (quote : Char) (body rest : List Char) :
    (⟨.string, body.length + 1 + 1⟩ : Lexeme).extract (quote :: (body ++ quote :: rest)) = body := by
  simp only [Lexeme.extract, List.take_succ_cons, List.drop_succ_cons, List.drop_zero]
  rw [List.append_cons, List.take_left' (by rw [List.length_append]; rfl), List.dropLast_concat]

/-- The text of any other token is all of it. -/
private theorem extract_plain {kind : TokenKind} (hkind : kind ≠ .string) (raw rest : List Char) :
    (⟨kind, raw.length⟩ : Lexeme).extract (raw ++ rest) = raw := by
  unfold Lexeme.extract
  split
  case h_1 h => exact absurd h hkind
  case h_2 => exact List.take_left

/-- **A token is found as it is written.** A character that belongs to no gap and is not NUL starts
    a token: the lexer takes exactly what it is written with, and reads its text. -/
theorem exists_spelled {c : Char} (text : List Char) (hblank : Lexer.isBlank c = false)
    (hsign : c ∉ [';', '\x00']) :
    ∃ raw inner rest, c :: text = raw ++ rest ∧ (Lexeme.ofText c text).length = raw.length ∧
      Spelled (Lexeme.ofText c text).kind raw inner rest ∧
      (Lexeme.ofText c text).extract (c :: text) = inner := by
  unfold Lexeme.ofText
  split
  case h_7 _ hcomma hperiod hpound hcolon hminus hbreak =>
    split
    case isTrue hdigit =>
      obtain ⟨run, rest, rfl, hrun, hall, hrest⟩ := exists_run Char.isAlphanum text
      refine ⟨c :: run, c :: run, rest, rfl, ?_, .number hdigit hall hrest, ?_⟩
      · rw [hrun]
        rfl
      · rw [hrun]
        exact extract_plain TokenKind.noConfusion (c :: run) rest
    split
    case isTrue _ hstart =>
      obtain ⟨run, rest, rfl, hrun, hall, hrest⟩ := exists_run Lexeme.isWordPart text
      refine ⟨c :: run, c :: run, rest, rfl, ?_, .word hstart hall hrest, ?_⟩
      · rw [hrun]
        rfl
      · rw [hrun]
        exact extract_plain TokenKind.noConfusion (c :: run) rest
    split
    case isTrue _ _ hquote =>
      -- a quote: the literal is closed, or it is not
      have hfound := found_ofText c text
      generalize Quotation.ofText c text = quotation at hfound
      cases hfound with
      | @closed body rest h =>
        exact ⟨c :: (body ++ [c]), body, rest, by simp, by simp, .string hquote h,
          extract_string c body rest⟩
      | @unclosed body rest h hrest =>
        exact ⟨c :: body, c :: body, rest, rfl, rfl, .unclosed hquote h hrest,
          extract_plain TokenKind.noConfusion (c :: body) rest⟩
    case isFalse hdigit hstart hquote =>
      refine ⟨[c], [c], text, rfl, rfl, .stray hblank hsign ?_ ?_, rfl⟩
      · -- it is none of the marks
        simp only [marks, List.map_cons, List.map_nil, List.mem_cons, List.not_mem_nil, or_false]
        rintro (rfl | rfl | rfl | rfl | rfl | rfl)
        all_goals contradiction
      · -- nor a digit, a letter or a quote
        rintro (h | h | h)
        · exact hdigit h
        · exact hstart h
        · exact hquote h
  all_goals exact ⟨[_], [_], text, rfl, rfl, .mark (by decide), rfl⟩

end Lexical

/-! ### The lexer -/

namespace Lexer

open Lexical

/-- Whether a source ends in front of a text. -/
def AtEnd (text : List Char) : Prop :=
  ∀ c ∈ text.head?, c = '\x00'

/-- What a lexer finds behind a gap, and where it goes on: the end of the source, and a NUL there is
    passed over, or a token, of which it takes all. -/
inductive Finds (lexer : Lexer) : Token × Lexer → Prop where
  | finish {gap rest : List Char} {location : Location} (hrest : lexer.rest = gap ++ rest)
    (hgap : Gap gap rest) (hend : AtEnd rest)
    (hlocation : location = lexer.location.shifted (Text.byteLength gap)) :
    Finds lexer (endToken location,
      ⟨rest.drop 1, location.shifted (Text.byteLength (rest.take 1)), true⟩)
  | token {kind : TokenKind} {gap raw text rest : List Char} {location : Location}
    (hrest : lexer.rest = gap ++ raw ++ rest) (hgap : Gap gap (raw ++ rest))
    (hspelled : Spelled kind raw text rest)
    (hlocation : location = lexer.location.shifted (Text.byteLength gap)) :
    Finds lexer (⟨kind, .ofList text, location⟩,
      ⟨rest, if kind = .linebreak then location.nextLine
        else location.shifted (Text.byteLength raw), false⟩)

/-- **A token is what stands behind a gap.** -/
theorem finds_next {lexer : Lexer} (hfinished : lexer.finished = false) :
    lexer.Finds lexer.next := by
  obtain ⟨gap, rest, hrest, hlength, hgap, hhead⟩ := exists_gap lexer.rest
  have htake : lexer.rest.take gap.length = gap := by rw [hrest, List.take_left]
  have hdrop : lexer.rest.drop gap.length = rest := by rw [hrest, List.drop_left]
  unfold next
  rw [if_neg (by rw [hfinished]; decide), hlength]
  dsimp only
  rw [htake, hdrop]
  cases rest with
  | nil => exact .finish hrest hgap nofun rfl
  | cons c text =>
    dsimp only
    by_cases hnul : c = '\x00'
    · -- a NUL behind the gap ends it, too
      subst hnul
      rw [if_pos rfl]
      exact .finish hrest hgap (fun c hc => (Option.some.inj hc).symm) rfl
    · obtain ⟨hblank, hcomment⟩ := hhead c rfl
      obtain ⟨raw, inner, behind, htext, hraw, hspelled, hextract⟩ :=
        exists_spelled text hblank (by simp [hcomment, hnul])
      have htake' : (c :: text).take raw.length = raw := by rw [htext, List.take_left]
      have hdrop' : (c :: text).drop raw.length = behind := by rw [htext, List.drop_left]
      rw [if_neg hnul]
      unfold scan
      dsimp only
      rw [hraw, hextract, htake', hdrop']
      rw [htext] at hrest hgap
      exact .token (by rw [hrest, List.append_assoc]) hgap hspelled rfl

end Lexer

end LC3
