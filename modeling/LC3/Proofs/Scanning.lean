import LC3.Proofs.Spans

namespace LC3

/-!
# Scanning what is spelled

The lexer finds gaps and tokens as they are written. The other way round, what is written as a gap
and a token is found as these, so a source has no other tokens than those it can be split into.

* `Lexical.Gap.blankLength_eq` — all of a gap is passed over.
* `Lexical.Spelled.ofText_eq` — all of a token is taken, with its kind.
* `Lexer.next_of_spelled`, `Lexer.next_of_atEnd` — what a lexer gives for it.
* `Lexical.Splits.tokens_eq` — the tokens of a source are those of any way to split it.
-/

/-! ### Gaps -/

namespace Lexical

/-- A comment is passed over up to the end of its line. -/
private theorem blankLength_comment {text behind : List Char} (htext : '\n' ∉ text)
    (hbehind : AtLineEnd behind) : Lexer.blankLength true (text ++ behind) = text.length := by
  induction text with
  | nil =>
    cases behind with
    | nil => rfl
    | cons c behind =>
      obtain rfl : c = '\n' := hbehind c rfl
      rfl
  | cons c text ih =>
    obtain ⟨hc, htext⟩ := not_or.mp (mt List.mem_cons.mpr htext)
    simp [Lexer.blankLength, Ne.symm hc, ih htext]

/-- **All of a gap is passed over**, and nothing else if no gap stands behind it. -/
theorem Gap.blankLength_eq {gap behind : List Char} (h : Gap gap behind)
    (hhead : ∀ c ∈ behind.head?, Lexer.isBlank c = false ∧ c ≠ ';') :
    Lexer.blankLength false (gap ++ behind) = gap.length := by
  induction h with
  | @nil behind =>
    cases behind with
    | nil => rfl
    | cons c behind =>
      obtain ⟨hblank, hcomment⟩ := hhead c rfl
      simp [Lexer.blankLength, hblank, hcomment]
  | blank hc h ih => simp [Lexer.blankLength, hc, ih hhead]
  | @comment text behind htext hbehind =>
    show Lexer.blankLength true (text ++ behind) + 1 = _
    rw [blankLength_comment htext hbehind, List.length_cons]

end Lexical

/-! ### Literals -/

namespace Quotation

/-- A quotation that is longer by two parts is longer by their sum. -/
theorem extend_extend (quotation : Quotation) (m n : Nat) :
    (quotation.extend m).extend n = quotation.extend (n + m) := by
  simp [extend, Nat.add_assoc]

/-- A character that neither ends a line nor takes the next one along. -/
theorem ofText_cons {quote c : Char} (text : List Char) (hbreak : c ≠ '\n')
    (hbackslash : c ≠ '\\') :
    ofText quote (c :: text) = if c = quote then ⟨true, 1⟩ else (ofText quote text).extend 1 := by
  rw [ofText]
  · exact hbreak
  · exact fun h _ => hbackslash h
  · exact fun _ h _ => hbackslash h
  · exact fun _ _ h _ => hbackslash h

/-- At the end of its line a literal ends, closed or not. -/
theorem ofText_of_atLineEnd (quote : Char) {behind : List Char}
    (h : Lexical.AtLineEnd behind) : ofText quote behind = ⟨false, 0⟩ := by
  cases behind with
  | nil => rfl
  | cons c behind =>
    obtain rfl : c = '\n' := h c rfl
    rfl

end Quotation

/-- What can start a word can continue it. -/
theorem Lexeme.isWordPart_of_isWordStart {c : Char} (h : Lexeme.isWordStart c = true) :
    Lexeme.isWordPart c = true := by
  simp only [Lexeme.isWordStart, Bool.or_eq_true, decide_eq_true_eq] at h
  simp only [Lexeme.isWordPart, Char.isAlphanum, Bool.or_eq_true, decide_eq_true_eq]
  exact h.imp_left .inl

namespace Lexical

variable {quote : Char} {body : List Char}

/-- What stands between two quotes is read as part of the literal. -/
theorem Quoted.ofText_append_eq (h : Quoted quote body) (rest : List Char) :
    Quotation.ofText quote (body ++ rest) = (Quotation.ofText quote rest).extend body.length := by
  induction h with
  | nil => simp [Quotation.extend]
  | plain hquote hbackslash hbreak h ih =>
    rw [List.cons_append, Quotation.ofText_cons _ hbreak hbackslash, if_neg hquote, ih,
      Quotation.extend_extend, List.length_cons, Nat.add_comm]
  | escaped hbreak h ih =>
    rw [List.cons_append, List.cons_append, Quotation.ofText, ih, Quotation.extend_extend,
      List.length_cons, List.length_cons, Nat.add_assoc, Nat.add_comm]
    exact hbreak

/-- A literal ends at the quote that closes it. -/
theorem Quoted.ofText_closed (h : Quoted quote body) (hquote : IsQuote quote)
    (behind : List Char) :
    Quotation.ofText quote (body ++ quote :: behind) = ⟨true, body.length + 1⟩ := by
  have hclosed : Quotation.ofText quote (quote :: behind) = ⟨true, 1⟩ := by
    rcases hquote with rfl | rfl <;> rfl
  rw [h.ofText_append_eq, hclosed]
  rfl

/-- A literal that is never closed ends with its line. -/
theorem Unclosed.ofText_eq (h : Unclosed quote body) {behind : List Char}
    (hbehind : AtLineEnd behind) :
    Quotation.ofText quote (body ++ behind) = ⟨false, body.length⟩ := by
  cases h with
  | quoted h =>
    rw [h.ofText_append_eq, Quotation.ofText_of_atLineEnd quote hbehind]
    rfl
  | @backslash text h =>
    have hlast : Quotation.ofText quote ('\\' :: behind) = ⟨false, 1⟩ := by
      cases behind with
      | nil => rfl
      | cons c behind =>
        obtain rfl : c = '\n' := hbehind c rfl
        rfl
    rw [List.append_assoc, h.ofText_append_eq, List.singleton_append, hlast, List.length_append]
    rfl

/-! ### Tokens -/

/-- The characters that only separate tokens, or end the source. -/
private def separators : List Char :=
  [' ', '\t', '\r', '\x0b', '\x0c', ';', '\x00']

/-- What is no separator is in no gap and does not end the source. -/
private theorem of_notMem_separators {c : Char} (h : c ∉ separators) :
    Lexer.isBlank c = false ∧ c ≠ ';' ∧ c ≠ '\x00' := by
  simpa [separators, Lexer.isBlank, and_assoc] using h

/-- Characters of a class that no separator belongs to. -/
private theorem notMem_separators {p : Char → Bool} {c : Char}
    (hp : ∀ d ∈ separators, p d = false) (hc : p c = true) : c ∉ separators := by
  intro hmem
  rw [hp c hmem] at hc
  exact Bool.noConfusion hc

/-- No quote is a separator. -/
private theorem isQuote_notMem {c : Char} (h : IsQuote c) : c ∉ separators := by
  rcases h with rfl | rfl <;> decide

/-- A token starts with a character that is in no gap and does not end the source. -/
theorem Spelled.exists_head {kind : TokenKind} {raw text behind : List Char}
    (h : Spelled kind raw text behind) :
    ∃ c rest, raw = c :: rest ∧ Lexer.isBlank c = false ∧ c ≠ ';' ∧ c ≠ '\x00' := by
  cases h with
  | mark h =>
    -- neither marks nor digits, letters or quotes are separators
    have hmark : ∀ mark ∈ marks, mark.1 ∉ separators := by decide
    exact ⟨_, _, rfl, of_notMem_separators (hmark _ h)⟩
  | number hc htext hbehind =>
    have hdigit : ∀ d ∈ separators, d.isDigit = false := by simp [separators]
    exact ⟨_, _, rfl, of_notMem_separators (notMem_separators hdigit hc)⟩
  | word hc htext hbehind =>
    have hstart : ∀ d ∈ separators, Lexeme.isWordStart d = false := by
      simp [separators, Lexeme.isWordStart]
    exact ⟨_, _, rfl, of_notMem_separators (notMem_separators hstart hc)⟩
  | string hquote hbody => exact ⟨_, _, rfl, of_notMem_separators (isQuote_notMem hquote)⟩
  | unclosed hquote hbody hbehind =>
    exact ⟨_, _, rfl, of_notMem_separators (isQuote_notMem hquote)⟩
  | stray hblank hsign hmark hmore =>
    simp only [List.mem_cons, List.not_mem_nil, or_false, not_or] at hsign
    exact ⟨_, _, rfl, hblank, hsign⟩

/-- What a character starts that is no token of its own. -/
private theorem ofText_of_notMark {c : Char} (text : List Char) (h : c ∉ marks.map Prod.fst) :
    Lexeme.ofText c text =
      if c.isDigit then ⟨.number, (text.takeWhile Char.isAlphanum).length + 1⟩
      else if Lexeme.isWordStart c then ⟨.word, (text.takeWhile Lexeme.isWordPart).length + 1⟩
      else if c = '"' ∨ c = '\'' then
        let quotation := Quotation.ofText c text
        ⟨if quotation.closed then .string else .unknown, quotation.length + 1⟩
      else ⟨.unknown, 1⟩ := by
  unfold Lexeme.ofText
  split
  case h_7 => rfl
  all_goals exact absurd (by decide) h

/-- Characters of a class that no mark belongs to. -/
private theorem notMem_marks {p : Char → Bool} {c : Char}
    (hp : ∀ d ∈ marks.map Prod.fst, p d = false) (hc : p c = true) : c ∉ marks.map Prod.fst := by
  intro hmem
  rw [hp c hmem] at hc
  exact Bool.noConfusion hc

/-- The first characters of a text that have a property, if the next one has not. -/
private theorem takeWhile_append {p : Char → Bool} {text behind : List Char}
    (htext : ∀ c ∈ text, p c = true) (hbehind : ∀ c ∈ behind.head?, p c = false) :
    (text ++ behind).takeWhile p = text := by
  have hnone : behind.takeWhile p = [] := by
    cases behind with
    | nil => rfl
    | cons c behind => simp [hbehind c rfl]
  rw [List.takeWhile_append_of_pos htext, hnone, List.append_nil]

/-- What starts a word is no digit. -/
private theorem not_isDigit_of_isWordStart {c : Char} (h : Lexeme.isWordStart c = true) :
    ¬ c.isDigit = true := by
  intro hdigit
  have hlast : c.val ≤ '9'.val := of_decide_eq_true (Bool.and_eq_true_iff.mp hdigit).2
  have hbelow : ∀ first : UInt32, '9'.val < first → ¬ first ≤ c.val :=
    fun first hfirst hle => UInt32.not_le.mpr hfirst (UInt32.le_trans hle hlast)
  rcases Bool.or_eq_true_iff.mp h with halpha | hunderscore
  · rcases Bool.or_eq_true_iff.mp halpha with hupper | hlower
    · exact hbelow 'A'.val (by decide) (of_decide_eq_true hupper).1
    · exact hbelow 'a'.val (by decide) (of_decide_eq_true (Bool.and_eq_true_iff.mp hlower).1)
  · obtain rfl := of_decide_eq_true hunderscore
    exact absurd hdigit (by decide)

/-- A quote starts nothing but a literal. -/
private theorem of_isQuote {c : Char} (h : IsQuote c) :
    c ∉ marks.map Prod.fst ∧ ¬ c.isDigit = true ∧ ¬ Lexeme.isWordStart c = true := by
  rcases h with rfl | rfl <;> decide

/-- **All of a token is taken**, with the kind it is spelled as. -/
theorem Spelled.ofText_eq {kind : TokenKind} {c : Char} {rest text behind : List Char}
    (h : Spelled kind (c :: rest) text behind) :
    Lexeme.ofText c (rest ++ behind) = ⟨kind, rest.length + 1⟩ := by
  cases h with
  | mark h =>
    have hmark : ∀ mark ∈ marks, Lexeme.ofText mark.1 behind = ⟨mark.2, 1⟩ := by
      simp [marks, Lexeme.ofText]
    exact hmark _ h
  | number hc htext hbehind =>
    have hdigit : ∀ d ∈ marks.map Prod.fst, d.isDigit = false := by simp [marks]
    rw [ofText_of_notMark _ (notMem_marks hdigit hc), if_pos hc, takeWhile_append htext hbehind]
  | word hc htext hbehind =>
    have hstart : ∀ d ∈ marks.map Prod.fst, Lexeme.isWordStart d = false := by
      simp [marks, Lexeme.isWordStart]
    rw [ofText_of_notMark _ (notMem_marks hstart hc), if_neg (not_isDigit_of_isWordStart hc),
      if_pos hc, takeWhile_append htext hbehind]
  | @string _ body _ hquote hbody =>
    obtain ⟨hmark, hdigit, hstart⟩ := of_isQuote hquote
    rw [ofText_of_notMark _ hmark, if_neg hdigit, if_neg hstart, List.append_assoc,
      List.singleton_append, hbody.ofText_closed hquote, List.length_append]
    exact if_pos hquote
  | unclosed hquote hbody hbehind =>
    -- without its last quote a literal goes up to the end of its line
    obtain ⟨hmark, hdigit, hstart⟩ := of_isQuote hquote
    rw [ofText_of_notMark _ hmark, if_neg hdigit, if_neg hstart, hbody.ofText_eq hbehind]
    exact if_pos hquote
  | stray hblank hsign hmark hmore =>
    simp only [StartsMore, not_or] at hmore
    rw [ofText_of_notMark _ hmark, if_neg hmore.1, if_neg hmore.2.1]
    exact if_neg hmore.2.2

/-- The text of a token is found in what it is written with. -/
theorem Spelled.extract_eq {kind : TokenKind} {raw text behind : List Char}
    (h : Spelled kind raw text behind) :
    (⟨kind, raw.length⟩ : Lexeme).extract (raw ++ behind) = text := by
  by_cases hkind : kind = .string
  · subst hkind
    obtain ⟨quote, -, rfl⟩ := h.exists_quote
    show (((quote :: (text ++ [quote]) ++ behind).take _).drop 1).dropLast = text
    rw [List.take_left, List.drop_one, List.tail_cons, List.dropLast_concat]
  · rw [h.eq_raw hkind]
    unfold Lexeme.extract
    split
    case h_1 hstring => exact absurd hstring hkind
    case h_2 => exact List.take_left

end Lexical

/-! ### The lexer -/

namespace Lexer

open Lexical

variable {lexer : Lexer} {gap : List Char}

/-- What stands behind a gap is read there. -/
theorem next_eq_scan {text : List Char} {c : Char}
    (hfinished : lexer.finished = false) (hrest : lexer.rest = gap ++ c :: text)
    (hlength : blankLength false lexer.rest = gap.length) (hnul : c ≠ '\x00') :
    lexer.next = scan c text (lexer.location.shifted (Text.byteLength gap)) := by
  have htake : lexer.rest.take gap.length = gap := by rw [hrest, List.take_left]
  have hdrop : lexer.rest.drop gap.length = c :: text := by rw [hrest, List.drop_left]
  unfold next
  rw [if_neg (by rw [hfinished]; decide), hlength]
  dsimp only
  rw [htake, hdrop]
  exact if_neg hnul

/-- **What is spelled behind a gap is the next token.** -/
theorem next_of_spelled {kind : TokenKind} {raw text behind : List Char}
    (hfinished : lexer.finished = false) (hrest : lexer.rest = gap ++ raw ++ behind)
    (hgap : Gap gap (raw ++ behind)) (hspelled : Spelled kind raw text behind) :
    let location := lexer.location.shifted (Text.byteLength gap)
    lexer.next = (⟨kind, .ofList text, location⟩,
      ⟨behind, if kind = .linebreak then location.nextLine
        else location.shifted (Text.byteLength raw), false⟩) := by
  intro location
  obtain ⟨c, rest, rfl, hblank, hcomment, hnul⟩ := hspelled.exists_head
  -- the gap is passed over, since the token does not look like one
  have hlength : blankLength false lexer.rest = gap.length := by
    rw [hrest, List.append_assoc]
    exact hgap.blankLength_eq fun d hd => by
      obtain rfl : c = d := Option.some.inj hd
      exact ⟨hblank, hcomment⟩
  have hrest' : lexer.rest = gap ++ c :: (rest ++ behind) := by
    rw [hrest, List.append_assoc, List.cons_append]
  have htake : (c :: (rest ++ behind)).take (rest.length + 1) = c :: rest := by simp
  have hdrop : (c :: (rest ++ behind)).drop (rest.length + 1) = behind := by simp
  have hextract : (⟨kind, rest.length + 1⟩ : Lexeme).extract (c :: (rest ++ behind)) = text :=
    hspelled.extract_eq
  rw [next_eq_scan hfinished hrest' hlength hnul]
  unfold scan
  dsimp only
  rw [hspelled.ofText_eq, htake, hdrop, hextract]

/-- Where the source ends behind a gap, there is no other token. -/
theorem next_of_atEnd {rest : List Char} (hfinished : lexer.finished = false)
    (hrest : lexer.rest = gap ++ rest) (hgap : Gap gap rest) (hend : AtEnd rest) :
    lexer.next.1 = endToken (lexer.location.shifted (Text.byteLength gap)) ∧
      lexer.next.2.finished = true := by
  have hlength : blankLength false lexer.rest = gap.length := by
    rw [hrest]
    exact hgap.blankLength_eq fun c hc => by
      rw [hend c hc]
      decide
  have htake : lexer.rest.take gap.length = gap := by rw [hrest, List.take_left]
  have hdrop : lexer.rest.drop gap.length = rest := by rw [hrest, List.drop_left]
  unfold next
  rw [if_neg (by rw [hfinished]; decide), hlength]
  dsimp only
  rw [htake, hdrop]
  -- the text ends, or goes on with a stray NUL
  cases rest with
  | nil => exact ⟨rfl, rfl⟩
  | cons c text =>
    dsimp only
    rw [if_pos (hend c rfl)]
    exact ⟨rfl, rfl⟩

end Lexer

namespace Lexical

/-- A lexer at a place of a source gives the tokens that the text behind it can be split into. -/
theorem Splits.take_eq {lexer : Lexer} {source : String} {before text : List Char}
    {spans : List Span} {last : Token} {limit : Nat} (h : Splits before text spans last)
    (hstands : lexer.Stands source before) (hrest : lexer.rest = text)
    (hfinished : lexer.finished = false) (hlimit : text.length < limit) :
    (lexer.take limit).1 = spans.map Span.token ++ [last] := by
  induction h generalizing lexer limit with
  | @finish before gap rest hgap hend =>
    obtain ⟨htoken, hbehind⟩ := Lexer.next_of_atEnd hfinished hrest hgap hend
    obtain ⟨limit, rfl⟩ := Nat.exists_eq_add_one_of_ne_zero (Nat.ne_zero_of_lt hlimit)
    rw [Lexer.take_succ hfinished, htoken, Lexer.take_of_finished hbehind, hstands.location,
      Location.after_append before hgap.linebreak_notMem]
    rfl
  | @token kind before gap raw text rest spans last hgap hspelled h ih =>
    obtain ⟨limit, rfl⟩ := Nat.exists_eq_add_one_of_ne_zero (Nat.ne_zero_of_lt hlimit)
    have hlocation : lexer.location.shifted (Text.byteLength gap) = .after (before ++ gap) := by
      rw [hstands.location, Location.after_append before hgap.linebreak_notMem]
    have hbehind :
        Lexer.Stands ⟨rest, .after (before ++ gap ++ raw), false⟩ source (before ++ gap ++ raw) :=
      ⟨by simp only [hstands.rest, hrest, List.append_assoc], rfl⟩
    have hshorter : rest.length < limit := by
      have hraw := List.length_pos_iff.mpr hspelled.ne_nil
      rw [List.length_append, List.length_append] at hlimit
      omega
    rw [Lexer.take_succ hfinished, Lexer.next_of_spelled hfinished hrest hgap hspelled, hlocation,
      Location.after_spelled _ hspelled]
    dsimp only
    rw [ih hbehind rfl rfl hshorter]
    rfl

/-- **A source has the tokens it can be split into.** -/
theorem Splits.tokens_eq {source : String} {spans : List Span} {last : Token}
    (h : Splits [] source.toList spans last) :
    (Lexer.ofSource source).tokens.1 = spans.map Span.token ++ [last] :=
  h.take_eq (Lexer.stands_ofSource source) rfl rfl (Nat.lt_succ_self _)

end Lexical

end LC3
