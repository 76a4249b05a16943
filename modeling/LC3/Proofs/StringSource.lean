import LC3.Proofs.Accounting
import LC3.Proofs.Joining
import LC3.Proofs.Layout
import LC3.Proofs.Literals

namespace LC3

/-!
# Sources with one string

A source with one region, in which there is nothing but a string, assembles to the address of the
region and the words of the string, whatever characters the string has. As bytes, the source can
have any bytes in its string.

* `Lexical.Reads` — the kinds and texts of the tokens of a text.
* `stringSource`, `stringSourceBytes` — the source with a string.
* `Assembly.exists_assemble_string` — what it is assembled to.
* `stringWords_decodeLatin1` — the words of a string of bytes.
-/

namespace Lexical

/-- Whether a text, behind another one, is read as tokens with some kinds and texts. -/
def Reads (text : List Char) (tokens : List (TokenKind × List Char)) : Prop :=
  ∀ before, ∃ spans last, Splits before text spans last ∧ last.kind = .sourceEnd ∧
    spans.map (fun span => (span.token.kind, span.token.text.toList)) = tokens

variable {kind : TokenKind} {gap raw text rest : List Char} {tokens : List (TokenKind × List Char)}

/-- Nothing is read at the end of a source. -/
theorem Reads.nil : Reads [] [] := by
  intro before
  have hend : Lexer.AtEnd [] := nofun
  exact ⟨[], _, .finish .nil hend, rfl, rfl⟩

/-- A token is read in front of others. -/
theorem Reads.token (h : Reads rest tokens) (hgap : Gap gap (raw ++ rest))
    (hspelled : Spelled kind raw text rest) :
    Reads (gap ++ raw ++ rest) ((kind, text) :: tokens) := by
  intro before
  obtain ⟨spans, last, hsplits, hlast, hspans⟩ := h (before ++ gap ++ raw)
  exact ⟨_, last, .token hgap hspelled hsplits, hlast, by
    rw [List.map_cons, hspans, String.toList_ofList]⟩

/-- A mark is read in front of anything. -/
theorem Reads.mark {c : Char} (h : Reads rest tokens) (hmark : (c, kind) ∈ marks) :
    Reads (c :: rest) ((kind, [c]) :: tokens) :=
  h.token .nil (.mark hmark)

/-- A word is read up to a character that belongs to none. -/
theorem Reads.word {c d : Char} (h : Reads (d :: rest) tokens)
    (hc : Lexeme.isWordStart c = true) (htext : text.all Lexeme.isWordPart = true)
    (hd : Lexeme.isWordPart d = false) :
    Reads (c :: text ++ d :: rest) ((.word, c :: text) :: tokens) := by
  refine h.token .nil (.word hc (List.all_eq_true.mp htext) ?_)
  rintro _ hd'
  exact Option.some.inj hd' ▸ hd

/-- A blank is passed over in front of a token. -/
theorem Reads.blank {c : Char} (h : Reads text ((kind, raw) :: tokens))
    (hc : Lexer.isBlank c = true) : Reads (c :: text) ((kind, raw) :: tokens) := by
  intro before
  obtain ⟨spans, last, hsplits, hlast, hspans⟩ := h (before ++ [c])
  cases hsplits with
  | finish => cases hspans
  | @token _ _ gap raw' _ rest spans _ hgap hspelled hrest =>
    have hmore : Splits before (c :: gap ++ raw' ++ rest) _ last :=
      .token (.blank hc hgap) hspelled (by simpa using hrest)
    exact ⟨_, last, hmore, hlast, hspans⟩

end Lexical

/-! ### The source -/

/-- A source with a string in a region of its own. -/
def stringSource (text : List Char) : List Char :=
  ".orig x3000\n.stringz \"".toList ++ Text.escape '"' text ++ "\"\n.end\n".toList

namespace Lexical

/-- The tokens of the source. -/
theorem reads_stringSource (text : List Char) :
    Reads (stringSource text)
      [(.period, ['.']), (.word, ['o', 'r', 'i', 'g']), (.word, ['x', '3', '0', '0', '0']),
        (.linebreak, ['\n']), (.period, ['.']), (.word, ['s', 't', 'r', 'i', 'n', 'g', 'z']),
        (.string, Text.escape '"' text), (.linebreak, ['\n']), (.period, ['.']),
        (.word, ['e', 'n', 'd']), (.linebreak, ['\n'])] := by
  have hperiod : ('.', TokenKind.period) ∈ marks := by decide
  have hbreak : ('\n', TokenKind.linebreak) ∈ marks := by decide
  -- from the end of the source to its start
  have hend : Reads ("\n.end\n".toList)
      [(.linebreak, ['\n']), (.period, ['.']), (.word, ['e', 'n', 'd']), (.linebreak, ['\n'])] := by
    have hname : Reads (['e', 'n', 'd'] ++ ['\n']) _ :=
      (Reads.nil.mark hbreak).word (by decide) (by decide) (by decide)
    exact (hname.mark hperiod).mark hbreak
  have hstring : Reads ('"' :: (Text.escape '"' text ++ ['"']) ++ "\n.end\n".toList) _ :=
    hend.token .nil (.string (.inl rfl) (Text.quoted_escape '"' text))
  have hdirective : Reads (['s', 't', 'r', 'i', 'n', 'g', 'z'] ++ ' ' :: _) _ :=
    (hstring.blank (by decide)).word (by decide) (by decide) (by decide)
  have hnumber : Reads (['x', '3', '0', '0', '0'] ++ '\n' :: _) _ :=
    ((hdirective.mark hperiod).mark hbreak).word (by decide) (by decide) (by decide)
  have horigin : Reads (['o', 'r', 'i', 'g'] ++ ' ' :: _) _ :=
    (hnumber.blank (by decide)).word (by decide) (by decide) (by decide)
  have hsource := horigin.mark hperiod
  unfold stringSource
  have hfront : ".orig x3000\n.stringz \"".toList =
      ['.', 'o', 'r', 'i', 'g', ' ', 'x', '3', '0', '0', '0', '\n', '.', 's', 't', 'r', 'i', 'n',
        'g', 'z', ' ', '"'] := by decide
  have hback : "\"\n.end\n".toList = '"' :: "\n.end\n".toList := by decide
  rw [hfront, hback]
  simpa using hsource

end Lexical

namespace Assembly

/-- The tree of the source: three directives. -/
private def stringTree (text : String) (origin number stringz string last : Token) : Node :=
  .root [⟨.directive .orig, some origin, [.leaf (.number 0x3000#16) number]⟩,
    ⟨.directive .stringz, some stringz, [.leaf (.string text) string]⟩,
    ⟨.directive .endRegion, some last, []⟩]

/-- A line with nothing but a directive. -/
private theorem line_directive {period name : Token} {directive : Directive}
    {tokens : List Token} {operands : List Node} (hperiod : period.kind = .period)
    (hname : name.kind = .word) (hdirective : Directive.ofName? name.text = some directive)
    (hoperands : Grammar.Operands Grammar.DirectiveOperand (Grammar.Optional .comma) tokens
      operands) :
    Grammar.Line (period :: name :: tokens) [⟨.directive directive, some name, operands⟩] := by
  refine .unlabelled (fun hlabel => ?_) (.directive hperiod hname hdirective hoperands)
  rw [Grammar.StartsWithLabel, hperiod] at hlabel
  cases hlabel.1

/-- The source is read as three directives. -/
theorem exists_parse_string (text : List Char) :
    ∃ origin number stringz string last result,
      parse (String.ofList (stringSource text)) = .ok result ∧ result.outcome =
        .ok (stringTree (String.ofList text) origin number stringz string last) := by
  obtain ⟨spans, last, hsplits, hlast, hspans⟩ := Lexical.reads_stringSource text []
  have htokens : (Lexer.ofSource (String.ofList (stringSource text))).tokens.1 =
      spans.map Span.token ++ [last] := by
    refine Lexical.Splits.tokens_eq ?_
    rwa [String.toList_ofList]
  simp only [List.map_eq_cons_iff, List.map_eq_nil_iff, Prod.mk.injEq] at hspans
  obtain ⟨⟨mark, _⟩, _, rfl, ⟨hmark, -⟩, ⟨origin, _⟩, _, rfl, ⟨horigin, horigin'⟩,
    ⟨number, _⟩, _, rfl, ⟨hnumber, hnumber'⟩, ⟨break₁, _⟩, _, rfl, ⟨hbreak₁, -⟩,
    ⟨mark₂, _⟩, _, rfl, ⟨hmark₂, -⟩, ⟨stringz, _⟩, _, rfl, ⟨hstringz, hstringz'⟩,
    ⟨string, _⟩, _, rfl, ⟨hstring, hstring'⟩, ⟨break₂, _⟩, _, rfl, ⟨hbreak₂, -⟩,
    ⟨mark₃, _⟩, _, rfl, ⟨hmark₃, -⟩, ⟨close, _⟩, _, rfl, ⟨hclose, hclose'⟩,
    ⟨break₃, _⟩, _, rfl, ⟨hbreak₃, -⟩, rfl⟩ := hspans
  dsimp only at *
  -- three lines with statements, and the end of the source
  have hbodies : (TokenLine.ofSource (String.ofList (stringSource text))).map TokenLine.body =
      [[mark, origin, number], [mark₂, stringz, string], [mark₃, close], []] := by
    rw [TokenLine.ofSource, htokens]
    simp [TokenLine.split, TokenLine.cons, Grammar.EndsLine, hmark, horigin, hnumber, hbreak₁,
      hmark₂, hstringz, hstring, hbreak₂, hmark₃, hclose, hbreak₃, hlast]
  have htext : ∀ {token : Token} {text : List Char}, token.text.toList = text →
      token.text = String.ofList text := fun h => by rw [← h, String.ofList_toList]
  have hfirst : Grammar.Line [mark, origin, number] [⟨.directive .orig, some origin,
      [.leaf (.number 0x3000#16) number]⟩] := by
    have hvalue : Line.HexNumber number.text 0x3000 := by
      rw [htext hnumber']
      exact Line.hexValue_eq_some_iff.mp (by decide)
    have hname : Directive.ofName? origin.text = some .orig := by
      rw [htext horigin']
      decide
    have hoperand : Grammar.DirectiveOperand [number] _ :=
      .number (.hex hnumber hvalue (by decide))
    exact line_directive hmark horigin hname (.first hoperand .none)
  have hsecond : Grammar.Line [mark₂, stringz, string] [⟨.directive .stringz, some stringz,
      [.leaf (.string (String.ofList text)) string]⟩] := by
    have hname : Directive.ofName? stringz.text = some .stringz := by
      rw [htext hstringz']
      decide
    have hoperand := Grammar.DirectiveOperand.string hstring
    rw [hstring', Text.unescape_escape (.inl rfl)] at hoperand
    exact line_directive hmark₂ hstringz hname (.first hoperand .none)
  have hthird : Grammar.Line [mark₃, close] [⟨.directive .endRegion, some close, []⟩] := by
    have hname : Directive.ofName? close.text = some .endRegion := by
      rw [htext hclose']
      decide
    exact line_directive hmark₃ hclose hname .none
  have hlines : List.Forall₂ Grammar.Line
      [[mark, origin, number], [mark₂, stringz, string], [mark₃, close], []] _ :=
    .cons hfirst (.cons hsecond (.cons hthird (.cons (.unlabelled id .empty) .nil)))
  rw [← hbodies] at hlines
  exact ⟨origin, number, stringz, string, close, TokenLine.exists_parse_iff.mpr ⟨_, hlines, rfl⟩⟩

/-- **Sources with a string.** The source with a string has the address of its region and the words
    of the string for its image, and nothing is found in it. -/
theorem exists_assemble_string (text : List Char) (diagnostics : Diagnostics) :
    ∃ assembly, assemble (String.ofList (stringSource text)) diagnostics = .ok assembly ∧
      assembly.outcome = .ok ⟨0x3000#16 :: stringWords (String.ofList text)⟩ := by
  obtain ⟨origin, number, stringz, string, last, hparsed⟩ := exists_parse_string text
  have hstages : Stages (String.ofList (stringSource text))
      (stringTree (String.ofList text) origin number stringz string last)
      (stringTree (String.ofList text) origin number stringz string last) .empty
      ⟨0x3000#16 :: stringWords (String.ofList text)⟩ := by
    refine ⟨hparsed, rfl, rfl, _, rfl, ?_⟩
    refine StageResult.outcome_eq_ok_iff.mpr ⟨rfl, ?_⟩
    show Image.mk (0x3000#16 :: (stringWords (String.ofList text) ++ [])) = _
    rw [List.append_nil]
  obtain ⟨assembly, hassemble, houtcome, -⟩ := hstages.exists_assemble diagnostics
  exact ⟨assembly, hassemble, houtcome⟩

end Assembly

/-! ### Bytes -/

/-- The bytes of a source with a string of bytes in a region of its own. -/
def stringSourceBytes (bytes : List UInt8) : List UInt8 :=
  ".orig x3000\n.stringz \"".toUTF8.toList ++ bytes.flatMap Text.escapeByte ++
    "\"\n.end\n".toUTF8.toList

/-- They are read as the source with the string that the bytes stand for. -/
theorem decodeLatin1_stringSourceBytes (bytes : List UInt8) :
    Text.decodeLatin1 (stringSourceBytes bytes) = stringSource (Text.decodeLatin1 bytes) := by
  have happend : ∀ first second : List UInt8, Text.decodeLatin1 (first ++ second) =
      Text.decodeLatin1 first ++ Text.decodeLatin1 second := fun _ _ => List.map_append
  have hfront : Text.decodeLatin1 ".orig x3000\n.stringz \"".toUTF8.toList =
      ".orig x3000\n.stringz \"".toList := by decide +kernel
  have hback : Text.decodeLatin1 "\"\n.end\n".toUTF8.toList = "\"\n.end\n".toList := by
    decide +kernel
  unfold stringSourceBytes stringSource
  simp only [happend, hfront, hback, Text.decodeLatin1_escapeBytes]

/-- The words of a string of bytes are the bytes, and a zero. -/
theorem stringWords_decodeLatin1 (bytes : List UInt8) :
    stringWords (String.ofList (Text.decodeLatin1 bytes)) =
      bytes.map (fun byte => BitVec.ofNat 16 byte.toNat) ++ [0#16] := by
  have hnumber : ∀ n < 256, (Char.ofNat n).toNat = n := by decide +kernel
  rw [stringWords, String.toList_ofList, Text.decodeLatin1, List.map_map]
  congr 1
  refine List.map_congr_left fun byte _ => ?_
  rw [Function.comp_apply, hnumber _ byte.toNat_lt]

end LC3
