import LC3.Proofs.Alike

namespace LC3

/-!
# Other spellings

The grammar asks of a token what kind it is and, of a word, what it means. Tokens that answer the
same can take each other's place: a line stays a line, and its nodes stay what they are.

* `Token.Synonym` — tokens that the grammar takes for the same.
* `Node.Spells` — the token of a node takes the place of that of another node.
* `Grammar.Line.respells` — lines stay lines, with nodes that are alike.
* `exists_parse_respelled` — sources of such tokens are read alike.
-/

/-- Where the first of two lists in pairs falls apart, so does the second. -/
theorem exists_append_of_forall₂ {α β : Type} {related : α → β → Prop} {first rest : List α}
    {others : List β} (h : List.Forall₂ related (first ++ rest) others) :
    ∃ first' rest', others = first' ++ rest' ∧ List.Forall₂ related first first' ∧
      List.Forall₂ related rest rest' := by
  induction first generalizing others with
  | nil => exact ⟨[], others, rfl, .nil, h⟩
  | cons a first ih =>
    cases h with
    | cons hab hrest =>
      obtain ⟨first', rest', rfl, hfirst, hrest⟩ := ih hrest
      exact ⟨_ :: first', rest', rfl, .cons hab hfirst, hrest⟩

/-- Whether the grammar takes two tokens for the same. -/
structure Token.Synonym (token other : Token) : Prop where
  kind : other.kind = token.kind
  text : token.kind ≠ .word → other.text = token.text
  instruction : Keyword.lookup other.text = Keyword.lookup token.text
  directive : Directive.ofName? other.text = Directive.ofName? token.text
  register : Register.ofName? other.text = Register.ofName? token.text
  hexNumber : ∀ value, Line.HexNumber other.text value ↔ Line.HexNumber token.text value

namespace Token.Synonym

variable {token other : Token} (h : token.Synonym other)

include h

/-- Synonyms have the form of a hexadecimal number together. -/
theorem isHexForm_iff : Grammar.IsHexForm other.text ↔ Grammar.IsHexForm token.text :=
  exists_congr h.hexNumber

theorem isReserved_eq : Keyword.isReserved other.text = Keyword.isReserved token.text := by
  rw [Keyword.isReserved, Keyword.isReserved, h.instruction, h.directive]

end Token.Synonym

/-- Whether the token of a node takes the place of that of another node, and is related to it. Flags
    have a token of their own. -/
def Node.Spells (related : Token → Token → Prop) (node other : Node) : Prop :=
  node.isFlags = false → Option.Rel related node.token? other.token?

/-- Neither of two such nodes has a token, or both have. -/
theorem Node.Spells.token_cases {related : Token → Token → Prop} {node other : Node}
    (h : node.Spells related other) (hplain : node.isFlags = false) :
    node.token? = none ∧ other.token? = none ∨
      ∃ token token', node.token? = some token ∧ other.token? = some token' ∧
        related token token' := by
  have htokens := h hplain
  generalize node.token? = token?, other.token? = other? at htokens
  cases htokens with
  | none => exact .inl ⟨rfl, rfl⟩
  | some hrelated => exact .inr ⟨_, _, rfl, rfl, hrelated⟩

namespace Grammar

variable {related : Token → Token → Prop}

/-- Whether pieces of source of a form keep it when their tokens are replaced one by one, with nodes
    that are alike. -/
def Respells (related : Token → Token → Prop) (form : Form) : Prop :=
  ∀ {tokens others nodes}, form tokens nodes → List.Forall₂ related tokens others →
    ∃ nodes', form others nodes' ∧ List.Forall₂ (Node.Alike (Node.Spells related)) nodes nodes'

/-- Whether the punctuation of some kind keeps it. -/
def RespellsGap (related : Token → Token → Prop) (gap : List Token → Prop) : Prop :=
  ∀ {tokens others}, gap tokens → List.Forall₂ related tokens others → gap others

/-- Leaves of related tokens are alike. -/
theorem alike_leaf {kind : Node.Kind} {token other : Token} (h : related token other) :
    (Node.leaf kind token).Alike (Node.Spells related) (.leaf kind other) :=
  Node.alike_iff.mpr ⟨rfl, fun _ => .some h, .nil⟩

section Forms

variable (hsynonym : ∀ token other, related token other → token.Synonym other)

include hsynonym

theorem Optional.respells (kind : TokenKind) : RespellsGap related (Optional kind) := by
  intro tokens others h htokens
  cases h with
  | none => cases htokens; exact .none
  | some hkind =>
    cases htokens with
    | cons htoken hrest =>
      cases hrest
      exact .some ((hsynonym _ _ htoken).kind.trans hkind)

theorem Single.respells (kind : TokenKind) : RespellsGap related (Single kind) := by
  intro tokens others h htokens
  cases h with
  | token hkind =>
    cases htokens with
    | cons htoken hrest =>
      cases hrest
      exact .token ((hsynonym _ _ htoken).kind.trans hkind)

/-- Decimal numbers keep their digits. -/
theorem Decimal.respells : Respells related Decimal := by
  intro tokens others nodes h htokens
  cases h with
  | @plain digits value hkind hvalue hfits =>
    -- digits are no word, so their text is the same
    obtain ⟨other, _, hdigits, hnil, rfl⟩ := List.forall₂_cons_left_iff.mp htokens
    obtain rfl := List.forall₂_nil_left_iff.mp hnil
    have hsame := hsynonym _ _ hdigits
    have htext : other.text = digits.text := hsame.text (by simp [hkind])
    exact ⟨_, .plain (hsame.kind.trans hkind) (htext ▸ hvalue) hfits,
      .cons (alike_leaf hdigits) .nil⟩
  | @negative minus digits value hminus hkind hvalue hfits =>
    obtain ⟨sign, _, hsign, hrest, rfl⟩ := List.forall₂_cons_left_iff.mp htokens
    obtain ⟨other, _, hdigits, hnil, rfl⟩ := List.forall₂_cons_left_iff.mp hrest
    obtain rfl := List.forall₂_nil_left_iff.mp hnil
    have hsame := hsynonym _ _ hdigits
    have htext : other.text = digits.text := hsame.text (by simp [hkind])
    exact ⟨_, .negative ((hsynonym _ _ hsign).kind.trans hminus) (hsame.kind.trans hkind)
      (htext ▸ hvalue) hfits, .cons (alike_leaf hdigits) .nil⟩

/-- Numbers keep their value. -/
theorem Number.respells : Respells related Number := by
  intro tokens others nodes h htokens
  cases h with
  | @hex word value hkind hvalue hfits =>
    -- a hexadecimal number is a word, but its value is the same
    obtain ⟨other, _, hword, hnil, rfl⟩ := List.forall₂_cons_left_iff.mp htokens
    obtain rfl := List.forall₂_nil_left_iff.mp hnil
    have hsame := hsynonym _ _ hword
    exact ⟨_, .hex (hsame.kind.trans hkind) ((hsame.hexNumber value).mpr hvalue) hfits,
      .cons (alike_leaf hword) .nil⟩
  | decimal hpound hdecimal =>
    obtain ⟨pound, rest, rfl, hpound', hrest⟩ := exists_append_of_forall₂ htokens
    obtain ⟨nodes', hdecimal', halike⟩ := Decimal.respells hsynonym hdecimal hrest
    exact ⟨nodes', .decimal (Optional.respells hsynonym _ hpound hpound') hdecimal', halike⟩

/-- Operands of directives stay operands. -/
theorem DirectiveOperand.respells : Respells related DirectiveOperand := by
  intro tokens others nodes h htokens
  cases h with
  | number h =>
    obtain ⟨nodes', h', halike⟩ := Number.respells hsynonym h htokens
    exact ⟨nodes', .number h', halike⟩
  | label hkind hform =>
    obtain ⟨other, _, hword, hnil, rfl⟩ := List.forall₂_cons_left_iff.mp htokens
    obtain rfl := List.forall₂_nil_left_iff.mp hnil
    have hsame := hsynonym _ _ hword
    exact ⟨_, .label (hsame.kind.trans hkind) (hsame.isHexForm_iff.not.mpr hform),
      .cons (alike_leaf hword) .nil⟩
  | @string token hkind =>
    obtain ⟨other, _, htoken, hnil, rfl⟩ := List.forall₂_cons_left_iff.mp htokens
    obtain rfl := List.forall₂_nil_left_iff.mp hnil
    have hsame := hsynonym _ _ htoken
    have htext : other.text = token.text := hsame.text (by simp [hkind])
    refine ⟨_, .string (hsame.kind.trans hkind), .cons ?_ .nil⟩
    rw [htext]
    exact alike_leaf htoken

/-- Operands of instructions stay operands. -/
theorem InstructionOperand.respells : Respells related InstructionOperand := by
  intro tokens others nodes h htokens
  cases h with
  | register hkind hname =>
    obtain ⟨other, _, hword, hnil, rfl⟩ := List.forall₂_cons_left_iff.mp htokens
    obtain rfl := List.forall₂_nil_left_iff.mp hnil
    have hsame := hsynonym _ _ hword
    exact ⟨_, .register (hsame.kind.trans hkind) (hsame.register.trans hname),
      .cons (alike_leaf hword) .nil⟩
  | number h =>
    obtain ⟨nodes', h', halike⟩ := Number.respells hsynonym h htokens
    exact ⟨nodes', .number h', halike⟩
  | label hkind hname hform =>
    obtain ⟨other, _, hword, hnil, rfl⟩ := List.forall₂_cons_left_iff.mp htokens
    obtain rfl := List.forall₂_nil_left_iff.mp hnil
    have hsame := hsynonym _ _ hword
    exact ⟨_, .label (hsame.kind.trans hkind) (hsame.register.trans hname)
      (hsame.isHexForm_iff.not.mpr hform), .cons (alike_leaf hword) .nil⟩

omit hsynonym in
/-- Lists of operands stay lists of operands. -/
theorem Operands.respells {operand : Form} {gap : List Token → Prop}
    (hoperand : Respells related operand) (hgap : RespellsGap related gap) :
    Respells related (Operands operand gap) := by
  have hmore : Respells related (More operand gap) := by
    intro tokens others nodes h htokens
    induction h generalizing others with
    | none =>
      cases htokens
      exact ⟨[], .none, .nil⟩
    | next hbetween hfirst _ ih =>
      obtain ⟨front, rest, rfl, hfront, hrest⟩ := exists_append_of_forall₂ htokens
      obtain ⟨between, tokens', rfl, hbetween', hfirst'⟩ := exists_append_of_forall₂ hfront
      obtain ⟨first, hform, halike⟩ := hoperand hfirst hfirst'
      obtain ⟨more, hmore, halikes⟩ := ih hrest
      exact ⟨_, .next (hgap hbetween hbetween') hform hmore, List.rel_append halike halikes⟩
  intro tokens others nodes h htokens
  cases h with
  | none =>
    cases htokens
    exact ⟨[], .none, .nil⟩
  | first hfirst hrest =>
    obtain ⟨front, rest, rfl, hfront, hrest'⟩ := exists_append_of_forall₂ htokens
    obtain ⟨first, hform, halike⟩ := hoperand hfirst hfront
    obtain ⟨more, hmore, halikes⟩ := hmore hrest hrest'
    exact ⟨_, .first hform hmore, List.rel_append halike halikes⟩

/-- Statements stay statements. -/
theorem Statement.respells : Respells related Statement := by
  intro tokens others nodes h htokens
  cases h with
  | empty =>
    cases htokens
    exact ⟨[], .empty, .nil⟩
  | directive hperiod hname hdirective hoperands =>
    obtain ⟨period, _, hperiod', hrest, rfl⟩ := List.forall₂_cons_left_iff.mp htokens
    obtain ⟨name, rest, hname', htokens', rfl⟩ := List.forall₂_cons_left_iff.mp hrest
    have hsame := hsynonym _ _ hname'
    obtain ⟨operands, hoperands', halike⟩ := Operands.respells
      (DirectiveOperand.respells hsynonym) (Optional.respells hsynonym _) hoperands htokens'
    refine ⟨_, .directive ((hsynonym _ _ hperiod').kind.trans hperiod)
      (hsame.kind.trans hname) (hsame.directive.trans hdirective) hoperands', .cons ?_ .nil⟩
    exact Node.alike_iff.mpr ⟨rfl, fun _ => .some hname', halike⟩
  | @instruction word mnemonic flags? tokens operands hword hinstruction hoperands =>
    obtain ⟨other, rest, hword', hrest, rfl⟩ := List.forall₂_cons_left_iff.mp htokens
    have hsame := hsynonym _ _ hword'
    obtain ⟨operands', hoperands', halike⟩ := Operands.respells
      (InstructionOperand.respells hsynonym) (Single.respells hsynonym _) hoperands hrest
    refine ⟨_, .instruction (hsame.kind.trans hword) (hsame.instruction.trans hinstruction)
      hoperands', .cons ?_ .nil⟩
    refine Node.alike_iff.mpr ⟨rfl, fun _ => .some hword', List.rel_append ?_ halike⟩
    -- the flags of a branch have a token of their own
    cases flags? with
    | none => exact .nil
    | some flags => exact .cons (Node.alike_iff.mpr ⟨rfl, nofun, .nil⟩) .nil

/-- A colon stays a colon. -/
private theorem startsWithColon_respelled {tokens others : List Token}
    (h : List.Forall₂ related tokens others) : StartsWithColon others ↔ StartsWithColon tokens := by
  cases h with
  | nil => exact Iff.rfl
  | cons htoken => simp [StartsWithColon, (hsynonym _ _ htoken).kind]

/-- A label in front of a line stays one. -/
private theorem startsWithLabel_respelled {tokens others : List Token}
    (h : List.Forall₂ related tokens others) : StartsWithLabel others ↔ StartsWithLabel tokens := by
  cases h with
  | nil => exact Iff.rfl
  | cons htoken hrest =>
    have hsame := hsynonym _ _ htoken
    simp only [StartsWithLabel, hsame.kind, hsame.isReserved_eq,
      startsWithColon_respelled hsynonym hrest]

/-- **Lines stay lines** when their tokens are replaced by others that the grammar takes for the
    same. -/
theorem Line.respells : Respells related Line := by
  intro tokens others nodes h htokens
  -- a line has a label under either spelling or under none
  have hlabel' := startsWithLabel_respelled hsynonym htokens
  cases h with
  | unlabelled hlabel hstatement =>
    obtain ⟨nodes', hstatement', halike⟩ := Statement.respells hsynonym hstatement htokens
    exact ⟨nodes', .unlabelled (hlabel'.not.mpr hlabel) hstatement', halike⟩
  | labelled hlabel hcolon hstatement =>
    obtain ⟨word, rest, hword, hrest, rfl⟩ := List.forall₂_cons_left_iff.mp htokens
    obtain ⟨nodes', hstatement', halike⟩ := Statement.respells hsynonym hstatement hrest
    exact ⟨_, .labelled (hlabel'.mpr hlabel)
      ((startsWithColon_respelled hsynonym hrest).not.mpr hcolon) hstatement',
      .cons (alike_leaf hword) halike⟩
  | labelledColon hlabel hcolon hstatement =>
    obtain ⟨word, _, hword, hrest, rfl⟩ := List.forall₂_cons_left_iff.mp htokens
    obtain ⟨colon, rest, hcolon', htokens', rfl⟩ := List.forall₂_cons_left_iff.mp hrest
    obtain ⟨nodes', hstatement', halike⟩ := Statement.respells hsynonym hstatement htokens'
    exact ⟨_, .labelledColon (hlabel'.mpr hlabel) ((hsynonym _ _ hcolon').kind.trans hcolon)
      hstatement', .cons (alike_leaf hword) halike⟩

end Forms

end Grammar

/-! ### Sources -/

namespace TokenLine

/-- Two lines whose tokens are related one by one. -/
structure Pairs (related : Token → Token → Prop) (line other : TokenLine) : Prop where
  body : List.Forall₂ related line.body other.body
  ending : related line.ending other.ending

/-- Lines in pairs have their tokens in pairs. -/
theorem Pairs.tokens {related : Token → Token → Prop} {line other : TokenLine}
    (h : Pairs related line other) : List.Forall₂ related line.tokens other.tokens :=
  List.rel_append h.body (.cons h.ending .nil)

/-- Tokens in pairs fall into lines in pairs, if their kinds are the same. -/
theorem forall₂_split {related : Token → Token → Prop} {tokens others : List Token}
    (h : List.Forall₂ related tokens others)
    (hkind : ∀ token other, related token other → other.kind = token.kind) :
    List.Forall₂ (Pairs related) (split tokens) (split others) := by
  induction h with
  | nil => exact .nil
  | @cons token other _ _ htoken _ ih =>
    have hends : Grammar.EndsLine other ↔ Grammar.EndsLine token := by
      rw [Grammar.EndsLine, Grammar.EndsLine, hkind _ _ htoken]
    by_cases htoken' : Grammar.EndsLine token
    · rw [split, split, dif_pos htoken', dif_pos (hends.mpr htoken')]
      exact .cons ⟨.nil, htoken⟩ ih
    · rw [split, split, dif_neg htoken', dif_neg (hends.not.mpr htoken')]
      generalize split _ = lines at ih
      generalize split _ = lines' at ih
      cases ih with
      | nil => exact .nil
      | cons hline hlines => exact .cons ⟨.cons htoken hline.body, hline.ending⟩ hlines

/-- Lines in pairs have pairs of tokens in front of their ends. -/
theorem forall₂_map_body {related : Token → Token → Prop} {tokens others : List Token}
    (h : List.Forall₂ related tokens others)
    (hkind : ∀ token other, related token other → other.kind = token.kind) :
    List.Forall₂ (List.Forall₂ related) ((split tokens).map body) ((split others).map body) := by
  rw [List.forall₂_map_left_iff, List.forall₂_map_right_iff]
  exact (forall₂_split h hkind).imp fun _ _ hline => hline.body

end TokenLine

/-- **Sources are read alike** when their tokens are replaced by others that the grammar takes for
    the same. -/
theorem exists_parse_respelled {related : Token → Token → Prop} {source source' : String}
    {tree : Node} (hsynonym : ∀ token other, related token other → token.Synonym other)
    (htokens : List.Forall₂ related (Lexer.ofSource source).tokens.1
      (Lexer.ofSource source').tokens.1)
    (h : ∃ result, parse source = .ok result ∧ result.outcome = .ok tree) :
    ∃ tree', (∃ result, parse source' = .ok result ∧ result.outcome = .ok tree') ∧
      tree.Alike (Node.Spells related) tree' := by
  obtain ⟨nodes, hlines, rfl⟩ := TokenLine.exists_parse_iff.mp h
  have hbodies := TokenLine.forall₂_map_body htokens fun _ _ htoken => (hsynonym _ _ htoken).kind
  -- line by line, and the nodes of the lines follow one another
  have hread : ∀ {lines lines' : List (List Token)} {nodes : List (List Node)},
      List.Forall₂ Grammar.Line lines nodes → List.Forall₂ (List.Forall₂ related) lines lines' →
        ∃ nodes', List.Forall₂ Grammar.Line lines' nodes' ∧
          List.Forall₂ (Node.Alike (Node.Spells related)) nodes.flatten nodes'.flatten := by
    intro lines lines' nodes hlines hbodies
    induction hlines generalizing lines' with
    | nil =>
      cases hbodies
      exact ⟨[], .nil, .nil⟩
    | cons hline _ ih =>
      obtain ⟨line', rest, hline', hrest, rfl⟩ := List.forall₂_cons_left_iff.mp hbodies
      obtain ⟨first, hfirst, halike⟩ := Grammar.Line.respells hsynonym hline hline'
      obtain ⟨others, hothers, halikes⟩ := ih hrest
      exact ⟨first :: others, .cons hfirst hothers, List.rel_append halike halikes⟩
  obtain ⟨nodes', hlines', halike⟩ := hread hlines hbodies
  refine ⟨.root nodes'.flatten, TokenLine.exists_parse_iff.mpr ⟨nodes', hlines', rfl⟩, ?_⟩
  exact Node.alike_iff.mpr ⟨rfl, fun _ => .none, halike⟩

end LC3
