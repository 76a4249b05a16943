import LC3.Proofs.TokenLines

namespace LC3

/-!
# The spans of tokens

A token takes up a span of the source, from its location up to where the lexer goes on. The spans
follow one another, and nothing stands between them but gaps.

* `Span` — a token with the place behind it, and `Span.slice?`, the text at its place.
* `Lexical.Splits` — how a text falls into spans and the end behind them.
* `Lexer.exists_location_nth` — the locations that a lexer keeps up are those of their offsets.
* `Lexer.splits_ofSource` — a source falls into the spans of its tokens.
-/

open Lexical

/-! ### Locations along a text -/

namespace Location

/-- A text without line breaks only moves a place along its line. -/
theorem after_append {text : List Char} (before : List Char) (h : '\n' ∉ text) :
    after (before ++ text) = (after before).shifted (Text.byteLength text) := by
  simp only [after, shifted, Text.lastLine_append before h, List.count_append,
    List.count_eq_zero_of_not_mem h, Text.byteLength_append, Nat.add_zero]

/-- Behind a line break the next line begins. -/
theorem after_linebreak (before : List Char) :
    after (before ++ ['\n']) = (after before).nextLine := by
  simp only [after, nextLine, Text.lastLine_linebreak, List.count_append, Text.byteLength_append]
  rfl

/-- Only a line break leads to the next line. -/
theorem after_spelled {kind : TokenKind} {raw text behind : List Char} (before : List Char)
    (h : Spelled kind raw text behind) :
    (if kind = .linebreak then (after before).nextLine
      else (after before).shifted (Text.byteLength raw)) = after (before ++ raw) := by
  by_cases hkind : kind = .linebreak
  · subst hkind
    rw [if_pos rfl, h.raw_of_linebreak, after_linebreak]
  · rw [if_neg hkind, after_append before (h.linebreak_notMem hkind)]

/-- The location of an offset is that of the text in front of it. -/
theorem ofOffset?_after {source : String} {before rest : List Char}
    (h : source.toList = before ++ rest) :
    ofOffset? source (after before).offset = some (after before) := by
  have hoffset : min (after before).offset (Text.byteLength (before ++ rest)) =
      Text.byteLength before := by
    rw [Text.byteLength_append]
    exact Nat.min_eq_left (Nat.le_add_right _ _)
  have hcut : Text.cutBytes? (Text.byteLength before) (before ++ rest) = some (before, rest) :=
    Text.cutBytes?_eq_some_iff.mpr ⟨rfl, rfl⟩
  unfold ofOffset?
  dsimp only
  rw [h, hoffset, hcut]
  rfl

end Location

/-! ### What a lexer does to a text -/

namespace Lexer

/-- Whether a lexer has come to the end of a part of a source, and knows where that is. -/
structure Stands (lexer : Lexer) (source : String) (before : List Char) : Prop where
  rest : source.toList = before ++ lexer.rest
  location : lexer.location = .after before

/-- A new lexer stands at the beginning of its source. -/
theorem stands_ofSource (source : String) : (ofSource source).Stands source [] :=
  ⟨rfl, rfl⟩

variable {lexer : Lexer} {source : String} {before : List Char}

/-- What a lexer finds at a place of a source, told by what stands in front of it. -/
theorem next_of_stands (hstands : lexer.Stands source before) (hfinished : lexer.finished = false) :
    (∃ gap rest behind, lexer.rest = gap ++ rest ∧ Gap gap rest ∧ AtEnd rest ∧
      lexer.next = (endToken (.after (before ++ gap)), behind) ∧ behind.finished = true ∧
      ∃ before', behind.Stands source before') ∨
    ∃ kind gap raw text rest, lexer.rest = gap ++ raw ++ rest ∧ Gap gap (raw ++ rest) ∧
      Spelled kind raw text rest ∧
      lexer.next = (⟨kind, .ofList text, .after (before ++ gap)⟩,
        ⟨rest, .after (before ++ gap ++ raw), false⟩) := by
  have hfinds := finds_next hfinished
  -- gaps are on one line
  have hgap' : ∀ {gap rest}, Gap gap rest →
      lexer.location.shifted (Text.byteLength gap) = .after (before ++ gap) := by
    intro gap rest hgap
    rw [hstands.location, Location.after_append before hgap.linebreak_notMem]
  generalize lexer.next = result at hfinds
  cases hfinds with
  | @finish gap rest location hrest hgap hend hlocation =>
    -- the text ends behind the gap; a NUL there is passed over on the same line
    obtain rfl := hlocation.trans (hgap' hgap)
    have hbreak : '\n' ∉ rest.take 1 := by
      cases rest with
      | nil => exact List.not_mem_nil
      | cons c rest =>
        rw [hend c rfl, List.take_succ_cons, List.take_zero]
        decide
    refine .inl ⟨gap, rest, _, hrest, hgap, hend, rfl, rfl, before ++ gap ++ rest.take 1, ?_, ?_⟩
    · rw [hstands.rest, hrest, List.append_assoc, List.append_assoc, List.take_append_drop]
    · rw [Location.after_append (before ++ gap) hbreak]
  | @token kind gap raw text rest location hrest hgap hspelled hlocation =>
    obtain rfl := hlocation.trans (hgap' hgap)
    refine .inr ⟨kind, gap, raw, text, rest, hrest, hgap, hspelled, ?_⟩
    rw [Location.after_spelled _ hspelled]

/-- The token that a lexer gives stands somewhere in the source, and so does the lexer behind it. -/
theorem exists_location_next (hstands : lexer.Stands source before) :
    (∃ front rest, source.toList = front ++ rest ∧ lexer.next.1.location = .after front) ∧
      ∃ front, lexer.next.2.Stands source front := by
  cases hfinished : lexer.finished with
  | true =>
    rw [next_of_finished hfinished]
    exact ⟨⟨before, lexer.rest, hstands.rest, hstands.location⟩, before, hstands⟩
  | false =>
    rcases next_of_stands hstands hfinished with
      ⟨gap, rest, behind, hrest, -, -, hnext, -, hbehind⟩ |
      ⟨kind, gap, raw, text, rest, hrest, -, -, hnext⟩
    · rw [hnext]
      refine ⟨⟨before ++ gap, rest, ?_, rfl⟩, hbehind⟩
      rw [hstands.rest, hrest, List.append_assoc]
    · have hsource : source.toList = before ++ gap ++ raw ++ rest := by
        simp only [hstands.rest, hrest, List.append_assoc]
      rw [hnext]
      exact ⟨⟨before ++ gap, raw ++ rest, by rw [hsource, List.append_assoc _ raw], rfl⟩,
        before ++ gap ++ raw, hsource, rfl⟩

/-- **Locations are those of their offsets**, of every token that a lexer gives, also behind the end
    of the source. -/
theorem exists_location_nth (hstands : lexer.Stands source before) (n : Nat) :
    ∃ front rest, source.toList = front ++ rest ∧ (lexer.nth n).location = .after front := by
  induction n generalizing lexer before with
  | zero => exact (exists_location_next hstands).1
  | succ n ih =>
    obtain ⟨front, hbehind⟩ := (exists_location_next hstands).2
    exact ih hbehind

end Lexer

/-! ### Spans -/

/-- A token with the byte offset behind it. -/
structure Span where
  token : Token
  stop : Nat

/-- The byte offset that a token starts at. -/
def Span.start (span : Span) : Nat :=
  span.token.location.offset

/-- The text of a source at the place of a token; for a quoted literal what stands between the
    quotes. There is none where the source cannot be cut. -/
def Span.slice? (span : Span) (source : String) : Option String :=
  let text? := match span.token.kind with
    | .string => Text.slice? (span.start + 1) (span.stop - 1) source.toList
    | _ => Text.slice? span.start span.stop source.toList
  text?.map String.ofList

/-- The spans of the next tokens before the end of the source, at most `limit` of them: behind each
    the lexer goes on. -/
def Lexer.spans (lexer : Lexer) : Nat → List Span
  | 0 => []
  | limit + 1 =>
    let (token, behind) := lexer.next
    if token.kind = .sourceEnd then [] else ⟨token, behind.location.offset⟩ :: behind.spans limit

/-- The spans of all tokens of a source before its end. -/
def Span.ofSource (source : String) : List Span :=
  (Lexer.ofSource source).spans (source.toList.length + 1)

namespace Lexical

/-- How the text behind another one falls into spans, and the token that ends it: in front of each
    span is a gap, and behind the last one is a gap up to the end. -/
inductive Splits : List Char → List Char → List Span → Token → Prop where
  | finish {before gap rest : List Char} (hgap : Gap gap rest) (hend : Lexer.AtEnd rest) :
    Splits before (gap ++ rest) [] (Lexer.endToken (.after (before ++ gap)))
  | token {kind : TokenKind} {before gap raw text rest : List Char} {spans : List Span} {last : Token}
    (hgap : Gap gap (raw ++ rest)) (hspelled : Spelled kind raw text rest)
    (h : Splits (before ++ gap ++ raw) rest spans last) :
    Splits before (gap ++ raw ++ rest)
      (⟨⟨kind, .ofList text, .after (before ++ gap)⟩, Text.byteLength (before ++ gap ++ raw)⟩ :: spans)
      last

namespace Splits

variable {source : String} {before text : List Char} {spans : List Span} {last : Token}

/-- Spans take up something, behind what comes before the text and in front of the end. -/
theorem bounds (h : Splits before text spans last) :
    Text.byteLength before ≤ last.location.offset ∧
      ∀ span ∈ spans, Text.byteLength before ≤ span.start ∧ span.start < span.stop ∧
        span.stop ≤ last.location.offset := by
  induction h with
  | @finish before gap rest hgap hend =>
    refine ⟨?_, List.forall_mem_nil _⟩
    show Text.byteLength before ≤ Text.byteLength (before ++ gap)
    rw [Text.byteLength_append]
    exact Nat.le_add_right _ _
  | @token kind before gap raw text rest spans last hgap hspelled h ih =>
    obtain ⟨hlast, hspans⟩ := ih
    have hraw := Text.byteLength_pos hspelled.ne_nil
    rw [Text.byteLength_append, Text.byteLength_append] at hlast hspans
    refine ⟨by omega, List.forall_mem_cons.mpr ⟨?_, fun span hspan => ?_⟩⟩
    · -- the first span begins behind the gap
      simp only [Span.start, Location.after, Text.byteLength_append]
      omega
    · obtain ⟨hstart, hstop, hend⟩ := hspans span hspan
      exact ⟨by omega, hstop, hend⟩

/-- Spans follow one another. -/
theorem pairwise (h : Splits before text spans last) :
    spans.Pairwise fun first second => first.stop ≤ second.start := by
  induction h with
  | finish hgap hend => exact .nil
  | token hgap hspelled h ih => exact .cons (fun span hspan => (h.bounds.2 span hspan).1) ih

/-- The text of a token is that of the source at its place. -/
theorem slice?_eq (h : Splits before text spans last) (hsource : source.toList = before ++ text) :
    ∀ span ∈ spans, span.slice? source = some span.token.text := by
  induction h with
  | finish hgap hend => exact List.forall_mem_nil _
  | @token kind before gap raw text rest spans last hgap hspelled h ih =>
    have hwhole : source.toList = before ++ gap ++ raw ++ rest := by
      simp only [hsource, List.append_assoc]
    refine List.forall_mem_cons.mpr ⟨?_, ih hwhole⟩
    unfold Span.slice?
    dsimp only
    split
    case h_1 =>
      -- a quote takes one byte, on either side of the text
      obtain ⟨quote, hquote, rfl⟩ := hspelled.exists_quote
      have hsize : quote.utf8Size = 1 := by rcases hquote with rfl | rfl <;> rfl
      refine congrArg (Option.map String.ofList) (Text.slice?_eq_some_iff.mpr
        ⟨before ++ gap ++ [quote], quote :: rest, ?_, ?_, ?_⟩)
      · simp only [hwhole, List.append_assoc, List.cons_append, List.nil_append]
      · simp only [Span.start, Location.after, Text.byteLength_append, Text.byteLength_cons,
          Text.byteLength_nil, hsize]
      · simp only [Text.byteLength_append, Text.byteLength_cons, Text.byteLength_nil, hsize]
        omega
    case h_2 hkind =>
      rw [hspelled.eq_raw hkind]
      have hslice : Text.slice? (Text.byteLength (before ++ gap))
          (Text.byteLength (before ++ gap ++ raw)) source.toList = some raw :=
        Text.slice?_eq_some_iff.mpr ⟨before ++ gap, rest, hwhole, rfl, rfl⟩
      exact congrArg (Option.map String.ofList) hslice

/-- NUL is in a token only if this is a literal, closed or not. -/
theorem isLiteral_of_nul_mem (h : Splits before text spans last) :
    ∀ span ∈ spans, '\x00' ∈ span.token.text.toList → span.token.kind = .string ∨
      span.token.kind = .unknown ∧ ∃ c ∈ span.token.text.toList.head?, IsQuote c := by
  induction h with
  | finish hgap hend => exact List.forall_mem_nil _
  | token hgap hspelled h ih =>
    refine List.forall_mem_cons.mpr ⟨fun hnul => ?_, ih⟩
    rw [String.toList_ofList] at hnul ⊢
    exact hspelled.isLiteral_of_nul_mem hnul

end Splits

end Lexical

namespace Lexer

/-- Behind the end of a source there is nothing but that end. -/
theorem nth_of_finished {lexer : Lexer} (h : lexer.finished = true) (n : Nat) :
    lexer.nth n = endToken lexer.location := by
  induction n with
  | zero => rw [nth, next_of_finished h]
  | succ n ih => rw [nth, next_of_finished h, ih]

theorem kind_nth_of_finished {lexer : Lexer} (hfinished : lexer.finished = true) (n : Nat) :
    (lexer.nth n).kind = .sourceEnd := by
  rw [nth_of_finished hfinished, endToken]

/-- A lexer at a place in a source splits the text that is left of it. Exactly the tokens behind the
    spans end the source. -/
theorem splits_spans {lexer : Lexer} {source : String} {before : List Char} {limit : Nat}
    (hstands : lexer.Stands source before) (hfinished : lexer.finished = false)
    (hlimit : lexer.rest.length < limit) :
    (∃ last, (lexer.take limit).1 = (lexer.spans limit).map Span.token ++ [last] ∧
      last.kind = .sourceEnd ∧ Splits before lexer.rest (lexer.spans limit) last) ∧
      ∀ n, (lexer.nth n).kind = .sourceEnd ↔ (lexer.spans limit).length ≤ n := by
  induction limit generalizing lexer before with
  | zero => exact absurd hlimit (Nat.not_lt_zero _)
  | succ limit ih =>
    rw [take_succ hfinished, spans]
    rcases next_of_stands hstands hfinished with
      ⟨gap, rest, behind, hrest, hgap, hend, hnext, hbehind, -⟩ |
      ⟨kind, gap, raw, text, rest, hrest, hgap, hspelled, hnext⟩
    · rw [hnext]
      refine ⟨?_, fun n => iff_of_true ?_ (Nat.zero_le n)⟩
      · rw [take_of_finished hbehind, hrest]
        exact ⟨_, rfl, rfl, .finish hgap hend⟩
      · cases n with
        | zero => rw [nth, hnext, endToken]
        | succ n => rw [nth, hnext, kind_nth_of_finished hbehind]
    · -- the next token takes at least one character, so what is left fits the limit
      have hbehind :
          Stands ⟨rest, .after (before ++ gap ++ raw), false⟩ source (before ++ gap ++ raw) :=
        ⟨by simp only [hstands.rest, hrest, List.append_assoc], rfl⟩
      have hshorter : rest.length < limit := by
        have hraw := List.length_pos_iff.mpr hspelled.ne_nil
        rw [hrest, List.length_append, List.length_append] at hlimit
        omega
      obtain ⟨⟨last, htake, hlast, hsplits⟩, hlater⟩ := ih hbehind rfl hshorter
      rw [hnext]
      dsimp only
      rw [if_neg hspelled.ne_sourceEnd]
      refine ⟨?_, fun n => ?_⟩
      · -- the spans of the rest are those of the text behind the token
        rw [htake, hrest]
        exact ⟨last, rfl, hlast, .token hgap hspelled hsplits⟩
      · -- a token that is not the end, and then those of the rest
        cases n with
        | zero =>
          rw [nth, hnext]
          exact iff_of_false hspelled.ne_sourceEnd (Nat.not_succ_le_zero _)
        | succ n =>
          rw [nth, hnext, List.length_cons, Nat.succ_le_succ_iff]
          exact hlater n

end Lexer

/-- The text of every token of a source is that of the source at its place. -/
theorem Span.slice?_ofSource {source : String} {span : Span} (h : span ∈ ofSource source) :
    span.slice? source = some span.token.text := by
  obtain ⟨⟨last, -, -, hsplits⟩, -⟩ :=
    Lexer.splits_spans (Lexer.stands_ofSource source) rfl (Nat.lt_succ_self _)
  exact hsplits.slice?_eq rfl span h

/-- Every token in front of the end has a span. -/
theorem Span.exists_of_mem_tokens {source : String} {token : Token}
    (h : token ∈ (Lexer.ofSource source).tokens.1) (hkind : token.kind ≠ .sourceEnd) :
    ∃ span ∈ ofSource source, span.token = token := by
  obtain ⟨⟨last, htokens, hlast, -⟩, -⟩ :=
    Lexer.splits_spans (Lexer.stands_ofSource source) rfl (Nat.lt_succ_self _)
  rw [Lexer.tokens, htokens] at h
  rcases List.mem_append.mp h with h | h
  · exact List.mem_map.mp h
  · obtain rfl := List.mem_singleton.mp h
    exact absurd hlast hkind

/-- **Nothing of a source is lost.** It falls into the spans of its tokens, which follow one another
    with nothing but gaps between them; the text of a token is that of the source at its place. The
    source ends behind the last gap, or at a NUL there, and no NUL before that is outside of a
    literal or a comment. Each token of the lexer, also behind the end, is located where its offset
    is. -/
theorem Lexer.splits_ofSource (source : String) :
    ∃ last, (ofSource source).tokens.1 = (Span.ofSource source).map Span.token ++ [last] ∧
      Grammar.Spells (ofSource source).nth 0 (ofSource source).tokens.1 ∧
      Splits [] source.toList (Span.ofSource source) last ∧
      (Span.ofSource source).Pairwise (fun first second => first.stop ≤ second.start) ∧
      (∀ span ∈ Span.ofSource source, span.start < span.stop ∧
        span.stop ≤ last.location.offset ∧ span.slice? source = some span.token.text ∧
        ('\x00' ∈ span.token.text.toList → span.token.kind = .string ∨
          span.token.kind = .unknown ∧ ∃ c ∈ span.token.text.toList.head?, IsQuote c)) ∧
      (∀ n, ((ofSource source).nth n).kind = .sourceEnd ↔ (Span.ofSource source).length ≤ n) ∧
      ∀ n, Location.ofOffset? source ((ofSource source).nth n).location.offset =
        some ((ofSource source).nth n).location := by
  obtain ⟨⟨last, htokens, -, hsplits⟩, hlater⟩ :=
    splits_spans (stands_ofSource source) rfl (Nat.lt_succ_self _)
  refine ⟨last, htokens, spells_take _ _, hsplits, hsplits.pairwise, fun span hspan => ?_,
    hlater, fun n => ?_⟩
  · obtain ⟨-, hstop, hend⟩ := hsplits.bounds.2 span hspan
    exact ⟨hstop, hend, hsplits.slice?_eq rfl span hspan, hsplits.isLiteral_of_nul_mem span hspan⟩
  · -- a token stands somewhere in the source, so its offset tells its location
    obtain ⟨front, rest, hsource, hlocation⟩ := exists_location_nth (stands_ofSource source) n
    rw [hlocation]
    exact Location.ofOffset?_after hsource

example : (Span.ofSource "LEA 'a;b' ; it's\n\x00 R0").map (fun span =>
    (span.token.text, span.start, span.stop)) =
      [("LEA", 0, 3), ("a;b", 4, 9), ("\n", 16, 17)] := by
  decide +kernel

end LC3
