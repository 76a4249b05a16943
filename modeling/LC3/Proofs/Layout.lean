import LC3.Proofs.Echoes
import LC3.Proofs.LabelNames
import LC3.Proofs.Scanning

namespace LC3

/-!
# Layout

Where tokens stand and how many blank lines there are between them changes neither what a source is
assembled to nor what is said about it. Blank lines are read as nothing; the other lines are read in
the same way wherever they stand, and the stages behind reading look at texts and not at places.

* `Token.condense`, `SameButLayout` — tokens without blank lines, and sources that have the same.
* `Lexical.Splits.sameButLayout` — gaps are layout.
* `TokenLine.split_condense` — the lines that are not blank.
* `problems_parse_layout`, `alike_parse_layout` — such sources are read alike.
* `assemble_layout` — and they are assembled alike.
-/

/-- Tokens without the line breaks that come first or directly behind another one. `broken` tells
    that nothing but a line break, or nothing at all, stands in front of them. -/
def Token.condense (broken : Bool) : List Token → List Token
  | [] => []
  | token :: tokens =>
    if token.kind = .linebreak then
      if broken then condense true tokens else token :: condense true tokens
    else token :: condense false tokens

/-- Two sources that differ in layout only: up to their ends they have the same tokens but for
    places, and for line breaks that come first or directly behind another one. -/
def SameButLayout (source source' : String) : Prop :=
  List.Forall₂ Token.Same (Token.condense true (Lexer.ofSource source).tokens.1)
    (Token.condense true (Lexer.ofSource source').tokens.1)

instance (source source' : String) : Decidable (SameButLayout source source') :=
  inferInstanceAs (Decidable (List.Forall₂ _ _ _))

/-- What is no line break stays behind other tokens. -/
theorem Token.condense_concat {last : Token} (hlast : last.kind ≠ .linebreak) (broken : Bool)
    (tokens : List Token) :
    condense broken (tokens ++ [last]) = condense broken tokens ++ [last] := by
  induction tokens generalizing broken with
  | nil => simp [condense, hlast]
  | cons token tokens ih =>
    simp only [List.cons_append, condense, ih]
    split
    · split <;> rfl
    · rfl

/-- Behind all spans is the end of the source. -/
theorem Lexical.Splits.exists_last_eq {before text : List Char} {spans : List Span} {last : Token}
    (h : Splits before text spans last) : ∃ location, last = Lexer.endToken location := by
  induction h with
  | finish => exact ⟨_, rfl⟩
  | token _ _ _ ih => exact ih

/-- Spaces, tabs, carriage returns and comments do not matter: whatever gaps two sources have
    between their tokens, they differ in layout only if the tokens are the same but for places and
    blank lines. -/
theorem Lexical.Splits.sameButLayout {source source' : String} {spans spans' : List Span}
    {last last' : Token} (h : Splits [] source.toList spans last)
    (h' : Splits [] source'.toList spans' last')
    (hsame : List.Forall₂ Token.Same (Token.condense true (spans.map Span.token))
      (Token.condense true (spans'.map Span.token))) : SameButLayout source source' := by
  obtain ⟨location, rfl⟩ := h.exists_last_eq
  obtain ⟨location', rfl⟩ := h'.exists_last_eq
  -- the end token is no line break, so condensing keeps it last
  have hend : ∀ location, (Lexer.endToken location).kind ≠ .linebreak := by
    intro location hkind
    cases hkind
  rw [SameButLayout, h.tokens_eq, h'.tokens_eq, Token.condense_concat (hend _),
    Token.condense_concat (hend _)]
  exact List.rel_append hsame (.cons ⟨rfl, rfl⟩ .nil)

/-! ### Blank lines -/

namespace TokenLine

open Grammar

/-- Whether there is nothing on a line but the line break that ends it. -/
def isBlank (line : TokenLine) : Bool :=
  line.body.isEmpty && line.ending.kind = .linebreak

/-- Tokens that end no line stay when line breaks are dropped. -/
private theorem condense_append {body : List Token} (hbody : ∀ token ∈ body, ¬ EndsLine token)
    (broken : Bool) (rest : List Token) :
    Token.condense broken (body ++ rest) =
      body ++ Token.condense (broken && body.isEmpty) rest := by
  induction body generalizing broken with
  | nil => simp
  | cons token body ih =>
    obtain ⟨htoken, hbody⟩ := List.forall_mem_cons.mp hbody
    have hbreak : token.kind ≠ .linebreak := fun h => htoken (.inl h)
    rw [List.cons_append, Token.condense, if_neg hbreak, ih hbody]
    simp

/-- The tokens of lines without blank lines are the tokens without the line breaks of these. -/
theorem condense_flatMap_tokens {lines : List TokenLine} (h : Closed lines) :
    Token.condense true (lines.flatMap tokens) =
      (lines.filter fun line => !line.isBlank).flatMap tokens := by
  induction h with
  | @last line hend =>
    have hblank : line.isBlank = false := by simp [isBlank, hend]
    simp [tokens, condense_append line.inside, Token.condense, hend, hblank]
  | @next line lines hbreak _ ih =>
    rw [List.flatMap_cons, tokens, List.append_assoc, condense_append line.inside, List.filter_cons]
    cases hbody : line.body <;> simp [Token.condense, hbreak, ih, isBlank, hbody, tokens]

/-- A line comes first among those that its tokens and others fall into. -/
theorem split_tokens_append (line : TokenLine) (rest : List Token) :
    split (line.tokens ++ rest) = line :: split rest := by
  obtain ⟨body, ending, inside, ends⟩ := line
  induction body with
  | nil => simp [tokens, split, ends]
  | cons token body ih =>
    obtain ⟨htoken, hbody⟩ := List.forall_mem_cons.mp inside
    have hrest := ih hbody
    simp only [tokens, List.cons_append] at hrest ⊢
    rw [split, dif_neg htoken, hrest]
    rfl

/-- Splitting the tokens of lines again gives the lines. -/
theorem split_flatMap_tokens (lines : List TokenLine) : split (lines.flatMap tokens) = lines := by
  induction lines with
  | nil => rfl
  | cons line lines ih => rw [List.flatMap_cons, split_tokens_append, ih]

/-- Without the line breaks of blank lines, the tokens of a source fall into its other lines. -/
theorem split_condense (source : String) :
    split (Token.condense true (Lexer.ofSource source).tokens.1) =
      (ofSource source).filter fun line => !line.isBlank := by
  rw [← flatMap_tokens_ofSource, condense_flatMap_tokens (closed_ofSource source),
    split_flatMap_tokens]

/-- A blank line is read as nothing. -/
theorem line_of_isBlank {line : TokenLine} (h : line.isBlank) : Grammar.Line line.body [] := by
  have hbody : line.body = [] := by simp_all [isBlank]
  rw [hbody]
  exact .unlabelled id .empty

/-- What blank lines add nothing to can do without them. -/
theorem flatMap_filter_isBlank {α : Type} {f : TokenLine → List α}
    (h : ∀ line, line.isBlank → f line = []) (lines : List TokenLine) :
    (lines.filter fun line => !line.isBlank).flatMap f = lines.flatMap f := by
  induction lines with
  | nil => rfl
  | cons line lines ih =>
    by_cases hblank : line.isBlank
    · simp [hblank, ih, h line hblank]
    · simp [hblank, ih]

/-! ### Lines -/

/-- Lines with the same tokens have nodes with the same texts. -/
theorem Pairs.forall₂_nodes {line other : TokenLine} (h : Pairs Token.Same line other) :
    List.Forall₂ (Node.Alike (Node.Spells Token.Same)) line.nodes other.nodes := by
  have hsynonym : ∀ token other, Token.Same token other → token.Synonym other :=
    fun _ _ hsame => .of_text_eq hsame.kind hsame.text
  -- both lines are in the grammar or neither is, since the tokens read alike
  by_cases hline : ∃ nodes, Grammar.Line line.body nodes
  · obtain ⟨nodes, hline⟩ := hline
    obtain ⟨nodes', hother, halike⟩ := Grammar.Line.respells hsynonym hline h.body
    rwa [(nodes_of_line hline).1, (nodes_of_line hother).1]
  · have hother : ¬ ∃ nodes, Grammar.Line other.body nodes := by
      rintro ⟨nodes', hother⟩
      obtain ⟨nodes, hnodes, -⟩ := Grammar.Line.respells hsynonym hother
        (h.body.flip.imp fun _ _ hsame => hsame.symm)
      exact hline ⟨nodes, hnodes⟩
    rw [(fails_of_not_line hline).1, (fails_of_not_line hother).1]
    exact .nil

/-- The lines that are not blank are the same in sources that differ in layout only. -/
theorem forall₂_of_sameButLayout {source source' : String} (h : SameButLayout source source') :
    List.Forall₂ (Pairs Token.Same) ((ofSource source).filter fun line => !line.isBlank)
      ((ofSource source').filter fun line => !line.isBlank) := by
  rw [← split_condense, ← split_condense]
  exact forall₂_split h fun _ _ hsame => hsame.kind

/-- What depends on the tokens of lines only, and not on blank lines, is related in sources that
    differ in layout only. -/
theorem forall₂_flatMap_ofSource {α : Type} {related : α → α → Prop} {f : TokenLine → List α}
    {source source' : String} (h : SameButLayout source source')
    (hblank : ∀ line, line.isBlank → f line = [])
    (hpair : ∀ line other, Pairs Token.Same line other → List.Forall₂ related (f line) (f other)) :
    List.Forall₂ related ((ofSource source).flatMap f) ((ofSource source').flatMap f) := by
  rw [← flatMap_filter_isBlank hblank (ofSource source),
    ← flatMap_filter_isBlank hblank (ofSource source')]
  exact List.rel_flatMap (forall₂_of_sameButLayout h) fun _ _ => hpair _ _

end TokenLine

/-! ### Sources -/

variable {source source' : String} {result result' : StageResult Node}

/-- Tokens that differ in their places only have the same text. -/
theorem Node.Spells.sameText {node other : Node} (h : node.Spells Token.Same other) :
    node.SameText other := by
  intro hplain
  rcases h.token_cases hplain with ⟨hnone, hnone'⟩ | ⟨token, token', htoken, htoken', hsame⟩
  · rw [hnone, hnone']
  · rw [htoken, htoken', Option.map_some, Option.map_some, hsame.text]

/-- What is wrong with sources that differ in layout only is the same. -/
theorem problems_parse_layout (h : SameButLayout source source')
    (hparse : parse source = .ok result) (hparse' : parse source' = .ok result') :
    result'.notices.map Notice.problem = result.notices.map Notice.problem := by
  have hcomplaints := TokenLine.forall₂_flatMap_ofSource h
    (fun _ hblank => TokenLine.complaints_of_line (TokenLine.line_of_isBlank hblank))
    fun _ _ hpair => List.forall₂_eq_eq_eq ▸ (TokenLine.complaints_congr hpair.tokens).symm
  rw [List.forall₂_eq_eq_eq] at hcomplaints
  rw [problems_parse hparse, problems_parse hparse', hcomplaints]

/-- Sources that differ in layout only are read as trees with the same texts. -/
theorem alike_parse_layout (h : SameButLayout source source')
    (hparse : parse source = .ok result) (hparse' : parse source' = .ok result') :
    result.product.Alike Node.SameText result'.product := by
  have hnodes : List.Forall₂ (Node.Alike (Node.Spells Token.Same))
      ((TokenLine.ofSource source).flatMap TokenLine.nodes)
      ((TokenLine.ofSource source').flatMap TokenLine.nodes) :=
    TokenLine.forall₂_flatMap_ofSource h
      (fun _ hblank => (TokenLine.nodes_of_line (TokenLine.line_of_isBlank hblank)).1)
      fun _ _ hpair => hpair.forall₂_nodes
  rw [product_parse hparse, product_parse hparse']
  exact Node.alike_iff.mpr ⟨rfl, fun _ => rfl, hnodes.imp fun _ _ hnode =>
    hnode.imp fun _ _ _ _ hspells => hspells.sameText⟩

/-- **Layout does not matter.** Two sources that differ in layout only are assembled to the same
    words, or fail at the same stage with as many errors. What is raised is the same, too, one by
    one, but for the places and the line that the help for a duplicate label quotes. -/
theorem assemble_layout (h : SameButLayout source source')
    (diagnostics diagnostics' : Diagnostics) :
    ∃ assembly assembly', assemble source diagnostics = .ok assembly ∧
      assemble source' diagnostics' = .ok assembly' ∧ assembly'.outcome = assembly.outcome ∧
        List.Forall₂ Diagnostic.Echoes (assembly.raised diagnostics)
          (assembly'.raised diagnostics') := by
  obtain ⟨assembly, findings, added, hassemble, ⟨result, hparse, hrun⟩, hadded, hdiagnostics⟩ :=
    Assembly.completes_assemble source diagnostics
  obtain ⟨assembly', findings', added', hassemble', ⟨result', hparse', hrun'⟩, hadded',
    hdiagnostics'⟩ := Assembly.completes_assemble source' diagnostics'
  have hnotices := Notice.echoes_of_map_problem_eq (problems_parse_layout h hparse hparse')
    (Assembly.quiet_parse hparse) (Assembly.quiet_parse hparse')
  have halike := alike_parse_layout h hparse hparse'
  -- the stages are followed up to the first that fails; only the analysis looks at the trees
  have hagree : Assembly.Agree findings findings' assembly.outcome assembly'.outcome := by
    refine Assembly.Goes.agree hnotices ?_ hrun hrun'
    intro tree tree' _ _ _ _ hout hout' hanalysis hanalysis'
    obtain ⟨-, rfl⟩ := StageResult.outcome_eq_ok_iff.mp hout
    obtain ⟨-, rfl⟩ := StageResult.outcome_eq_ok_iff.mp hout'
    exact hanalysis.agree hparse hout hanalysis' halike
  obtain ⟨houtcome, hechoes⟩ := hagree
  refine ⟨assembly, assembly', hassemble, hassemble', houtcome, ?_⟩
  -- the same is raised before the locations are added
  rw [Assembly.raised_eq hdiagnostics, Assembly.raised_eq hdiagnostics']
  exact Notice.Diagnosed.echoes hechoes hadded hadded'

/-- A small program with blank lines, comments, tabs and other spaces, and without them. -/
theorem assemble_layout_loop :
    let source := ".orig x3000\nloop add r0, r0, #-1\nbrp loop\n.end"
    let source' := "; counts down\r\n\r\n  .orig\tx3000\r\n\r\n" ++
      "loop  add r0 ,r0, # -1 ; one less\r\n brp loop\r\n\r\n\r\n.end ; done"
    SameButLayout source source' ∧
    ∃ assembly assembly', assemble source .empty = .ok assembly ∧
      assemble source' .empty = .ok assembly' ∧ assembly'.outcome = assembly.outcome ∧
        List.Forall₂ Diagnostic.Echoes (assembly.raised .empty) (assembly'.raised .empty) ∧
          assembly.outcome = .ok ⟨[0x3000#16, 0x103F#16, 0x03FE#16]⟩ := by
  intro source source'
  have hlayout : SameButLayout source source' := by decide +kernel
  have himage : (assemble source .empty).map Assembly.outcome =
      .ok (.ok ⟨[0x3000#16, 0x103F#16, 0x03FE#16]⟩) := by
    decide +kernel
  obtain ⟨assembly, assembly', hassemble, hassemble', hsame, hechoes⟩ :=
    assemble_layout hlayout .empty .empty
  obtain ⟨assembly'', hassemble'', houtcome⟩ := map_eq_ok_iff.mp himage
  obtain rfl := Except.ok.inj (hassemble.symm.trans hassemble'')
  exact ⟨hlayout, assembly, assembly', hassemble, hassemble', hsame, hechoes, houtcome⟩

end LC3
