import LC3.Proofs.Numerals

namespace LC3.Grammar

/-!
# The grammar of a line

What a line of assembly is, as a list of tokens together with the nodes that it stands for. Nothing
here looks ahead, goes back or repeats greedily; the rules of `LC3.Line` do, and accept the same.

* `Grammar.Number`, `Grammar.DirectiveOperand`, `Grammar.InstructionOperand` — operands.
* `Grammar.Operands` — operands with something between neighbours.
* `Grammar.Composes`, `Grammar.Operands.composed` — what holds of operands holds of all together.
* `Grammar.Statement` — what stands behind the label of a line.
* `Grammar.Line` — a line, without the token that ends it.
* `Grammar.Builds`, `Grammar.Line.built` — what is kept by all pieces of lines holds of lines.
* `Grammar.Spells`, `Grammar.Spans` — some tokens, or those of a form, stand at a place of a
  sequence.
-/

/-- Which tokens a piece of source has and which nodes it stands for. -/
abbrev Form := List Token → List Node → Prop

/-- A token of a kind, or none. -/
inductive Optional (kind : TokenKind) : List Token → Prop where
  | none : Optional kind []
  | some {token : Token} (hkind : token.kind = kind) : Optional kind [token]

/-- A token of a kind. -/
inductive Single (kind : TokenKind) : List Token → Prop where
  | token {token : Token} (hkind : token.kind = kind) : Single kind [token]

/-! ### Operands -/

/-- A decimal number that fits a word. A minus negates it as a word. -/
inductive Decimal : Form where
  | plain {digits : Token} {value : Nat} (hkind : digits.kind = .number)
    (hvalue : Line.DecimalNumber digits.text value) (hfits : value < Word.count) :
    Decimal [digits] [.leaf (.number (BitVec.ofNat 16 value)) digits]
  | negative {minus digits : Token} {value : Nat} (hminus : minus.kind = .minus)
    (hkind : digits.kind = .number) (hvalue : Line.DecimalNumber digits.text value)
    (hfits : value < Word.count) :
    Decimal [minus, digits] [.leaf (.number (-BitVec.ofNat 16 value)) digits]

/-- A number that fits a word: `x3000`, `#-1` or `10`. -/
inductive Number : Form where
  | hex {word : Token} {value : Nat} (hkind : word.kind = .word)
    (hvalue : Line.HexNumber word.text value) (hfits : value < Word.count) :
    Number [word] [.leaf (.number (BitVec.ofNat 16 value)) word]
  | decimal {pound tokens : List Token} {nodes : List Node} (hpound : Optional .pound pound)
    (hdecimal : Decimal tokens nodes) : Number (pound ++ tokens) nodes

/-- Whether a word has the form of a hexadecimal number, be it in range or not. -/
def IsHexForm (word : String) : Prop :=
  ∃ value, Line.HexNumber word value

/-- An operand of a directive: a number, a string, or a label, which has not the form of a
    hexadecimal number. -/
inductive DirectiveOperand : Form where
  | number {tokens : List Token} {nodes : List Node} (h : Number tokens nodes) :
    DirectiveOperand tokens nodes
  | label {word : Token} (hkind : word.kind = .word) (hform : ¬ IsHexForm word.text) :
    DirectiveOperand [word] [.leaf .labelReference word]
  | string {token : Token} (hkind : token.kind = .string) :
    DirectiveOperand [token]
      [.leaf (.string (String.ofList (Text.unescape token.text.toList))) token]

/-- An operand of an instruction: a register, a number, or a label, which is any other word that has
    not the form of a hexadecimal number. -/
inductive InstructionOperand : Form where
  | register {word : Token} {register : Register} (hkind : word.kind = .word)
    (hname : Register.ofName? word.text = some register) :
    InstructionOperand [word] [.leaf (.register register) word]
  | number {tokens : List Token} {nodes : List Node} (h : Number tokens nodes) :
    InstructionOperand tokens nodes
  | label {word : Token} (hkind : word.kind = .word) (hname : Register.ofName? word.text = none)
    (hform : ¬ IsHexForm word.text) :
    InstructionOperand [word] [.leaf .labelReference word]

/-- Operands that follow others, each behind a gap. -/
inductive More (operand : Form) (gap : List Token → Prop) : Form where
  | none : More operand gap [] []
  | next {between tokens rest : List Token} {nodes others : List Node} (hgap : gap between)
    (hoperand : operand tokens nodes) (hrest : More operand gap rest others) :
    More operand gap (between ++ tokens ++ rest) (nodes ++ others)

/-- Operands with gaps between neighbours. -/
inductive Operands (operand : Form) (gap : List Token → Prop) : Form where
  | none : Operands operand gap [] []
  | first {tokens rest : List Token} {nodes others : List Node} (hoperand : operand tokens nodes)
    (hrest : More operand gap rest others) : Operands operand gap (tokens ++ rest) (nodes ++ others)

/-! ### Pieces put together -/

variable {tokens : List Token} {nodes : List Node}

/-- Whether pieces of source of a form can be put together, with nothing as the least of them. -/
structure Composes (form : Form) : Prop where
  none : form [] []
  append {first rest : List Token} {nodes others : List Node} (h : form first nodes)
    (h' : form rest others) : form (first ++ rest) (nodes ++ others)

/-- Operands are of a form if each is and nothing comes of the gaps between them. -/
theorem Operands.composed {operand form : Form} {gap : List Token → Prop}
    (h : Operands operand gap tokens nodes) (hform : Composes form)
    (hoperand : ∀ tokens nodes, operand tokens nodes → form tokens nodes)
    (hgap : ∀ tokens, gap tokens → form tokens []) : form tokens nodes := by
  have hmore : ∀ {rest others}, More operand gap rest others → form rest others := by
    intro rest others h
    induction h with
    | none => exact hform.none
    | next hgap' hoperand' _ ih =>
      exact hform.append (hform.append (hgap _ hgap') (hoperand _ _ hoperand')) ih
  cases h with
  | none => exact hform.none
  | first hoperand' hrest => exact hform.append (hoperand _ _ hoperand') (hmore hrest)

/-- Operands consist of their tokens and those of the gaps between them. -/
theorem Operands.forall_tokens {operand : Form} {gap : List Token → Prop} {property : Token → Prop}
    (h : Operands operand gap tokens nodes)
    (hoperand : ∀ tokens nodes, operand tokens nodes → ∀ token ∈ tokens, property token)
    (hgap : ∀ tokens, gap tokens → ∀ token ∈ tokens, property token) :
    ∀ token ∈ tokens, property token := by
  have hform : Composes fun tokens _ => ∀ token ∈ tokens, property token :=
    ⟨List.forall_mem_nil _, fun h h' => List.forall_mem_append.mpr ⟨h, h'⟩⟩
  exact h.composed hform hoperand hgap

/-- What holds of the nodes of each operand holds of those of all of them. -/
theorem Operands.forall_nodes {operand : Form} {gap : List Token → Prop} {property : Node → Prop}
    (h : Operands operand gap tokens nodes)
    (hoperand : ∀ tokens nodes, operand tokens nodes → ∀ node ∈ nodes, property node) :
    ∀ node ∈ nodes, property node := by
  have hform : Composes fun _ nodes => ∀ node ∈ nodes, property node :=
    ⟨List.forall_mem_nil _, fun h h' => List.forall_mem_append.mpr ⟨h, h'⟩⟩
  exact h.composed hform hoperand fun _ _ => List.forall_mem_nil _

/-! ### Lines -/

/-- What stands behind the label of a line: nothing, a directive whose operands have a comma or
    nothing between them, or an instruction whose operands have commas between them. -/
inductive Statement : Form where
  | empty : Statement [] []
  | directive {period name : Token} {directive : Directive} {tokens : List Token}
    {operands : List Node} (hperiod : period.kind = .period) (hname : name.kind = .word)
    (hdirective : Directive.ofName? name.text = some directive)
    (hoperands : Operands DirectiveOperand (Optional .comma) tokens operands) :
    Statement (period :: name :: tokens) [⟨.directive directive, some name, operands⟩]
  | instruction {word : Token} {mnemonic : Mnemonic} {flags? : Option Flags} {tokens : List Token}
    {operands : List Node} (hword : word.kind = .word)
    (hinstruction : Keyword.lookup word.text = .instruction mnemonic flags?)
    (hoperands : Operands InstructionOperand (Single .comma) tokens operands) :
    Statement (word :: tokens) [⟨.instruction mnemonic none flags?, some word,
      (flags?.map (Line.flagsNode · word)).toList ++ operands⟩]

/-- Whether some tokens start with a colon. -/
def StartsWithColon (tokens : List Token) : Prop :=
  ∃ colon ∈ tokens.head?, colon.kind = .colon

/-- Whether a line starts with a label: a word with a colon behind it, or one that is no keyword. -/
def StartsWithLabel : List Token → Prop
  | [] => False
  | word :: tokens =>
    word.kind = .word ∧ (StartsWithColon tokens ∨ Keyword.isReserved word.text = false)

/-- What starts with a colon is not empty. -/
theorem StartsWithColon.exists_cons {tokens : List Token} (h : StartsWithColon tokens) :
    ∃ colon rest, tokens = colon :: rest := by
  obtain ⟨colon, hcolon, -⟩ := h
  obtain ⟨rest, hrest⟩ := List.head?_eq_some_iff.mp hcolon
  exact ⟨colon, rest, hrest⟩

/-- Neither is what starts with a label. -/
theorem StartsWithLabel.exists_cons {tokens : List Token} (h : StartsWithLabel tokens) :
    ∃ word rest, tokens = word :: rest := by
  cases tokens with
  | nil => exact absurd h id
  | cons word rest => exact ⟨word, rest, rfl⟩

/-- A line, without the token that ends it. The colon behind a label belongs to the label. -/
inductive Line : Form where
  | unlabelled {tokens : List Token} {nodes : List Node} (hlabel : ¬ StartsWithLabel tokens)
    (hstatement : Statement tokens nodes) : Line tokens nodes
  | labelled {word : Token} {tokens : List Token} {nodes : List Node}
    (hlabel : StartsWithLabel (word :: tokens)) (hcolon : ¬ StartsWithColon tokens)
    (hstatement : Statement tokens nodes) :
    Line (word :: tokens) (.leaf .labelDefinition word :: nodes)
  | labelledColon {word colon : Token} {tokens : List Token} {nodes : List Node}
    (hlabel : StartsWithLabel (word :: colon :: tokens)) (hcolon : colon.kind = .colon)
    (hstatement : Statement tokens nodes) :
    Line (word :: colon :: tokens) (.leaf .labelDefinition word :: nodes)

/-! ### Where a line can end -/

/-- A token that ends a line. -/
def EndsLine (token : Token) : Prop :=
  token.kind = .linebreak ∨ token.kind = .sourceEnd

instance (token : Token) : Decidable (EndsLine token) :=
  inferInstanceAs (Decidable (_ ∨ _))

/-- A token that an operand can have. -/
def IsOperandPart (token : Token) : Prop :=
  token.kind ∈ [.word, .pound, .minus, .number, .string]

/-- Only a line break and the end of the source end a line. -/
theorem not_endsLine_of_kind {token : Token} {kind : TokenKind} (hkind : token.kind = kind)
    (hnone : kind ∉ [.linebreak, .sourceEnd]) : ¬ EndsLine token := by
  rintro (h | h) <;> rw [← hkind, h] at hnone <;> simp at hnone

/-- No part of an operand ends a line. -/
theorem not_endsLine_of_isOperandPart {token : Token} (h : IsOperandPart token) :
    ¬ EndsLine token := by
  unfold IsOperandPart at h
  unfold EndsLine
  revert h
  cases token.kind <;> decide

/-- No part of an operand is a comma. -/
theorem kind_ne_comma_of_isOperandPart {token : Token} (h : IsOperandPart token) :
    token.kind ≠ .comma := by
  unfold IsOperandPart at h
  revert h
  cases token.kind <;> decide

/-- A pound sign belongs to the number behind it. -/
private theorem Optional.isOperandPart_of_pound (h : Optional .pound tokens) :
    ∀ token ∈ tokens, IsOperandPart token := by
  cases h with
  | none => exact List.forall_mem_nil _
  | some hkind => simp [IsOperandPart, hkind]

/-- A decimal number is made of parts of operands, one of them at least. -/
private theorem Decimal.parts (h : Decimal tokens nodes) :
    tokens ≠ [] ∧ ∀ token ∈ tokens, IsOperandPart token := by
  cases h with
  | plain hkind => simp [IsOperandPart, hkind]
  | negative hminus hkind => simp [IsOperandPart, hminus, hkind]

/-- A number has tokens, all of which an operand can have. -/
theorem Number.parts (h : Number tokens nodes) :
    tokens ≠ [] ∧ ∀ token ∈ tokens, IsOperandPart token := by
  cases h with
  | hex hkind => simp [IsOperandPart, hkind]
  | decimal hpound hdecimal =>
    obtain ⟨hne, hparts⟩ := hdecimal.parts
    refine ⟨List.append_ne_nil_of_right_ne_nil _ hne, fun token h => ?_⟩
    exact (List.mem_append.mp h).elim (hpound.isOperandPart_of_pound token) (hparts token)

/-- So is an operand of a directive. -/
theorem DirectiveOperand.parts (h : DirectiveOperand tokens nodes) :
    tokens ≠ [] ∧ ∀ token ∈ tokens, IsOperandPart token := by
  cases h with
  | number h => exact h.parts
  | label hkind | string hkind => simp [IsOperandPart, hkind]

/-- And so is an operand of an instruction. -/
theorem InstructionOperand.parts (h : InstructionOperand tokens nodes) :
    tokens ≠ [] ∧ ∀ token ∈ tokens, IsOperandPart token := by
  cases h with
  | number h => exact h.parts
  | register hkind | label hkind => simp [IsOperandPart, hkind]

/-- A statement has no token that ends a line. -/
theorem Statement.not_endsLine (h : Statement tokens nodes) :
    ∀ token ∈ tokens, ¬ EndsLine token := by
  cases h with
  | empty => exact List.forall_mem_nil _
  | directive hperiod hname _ hoperands =>
    have hperiod' := not_endsLine_of_kind hperiod (by decide)
    have hname' := not_endsLine_of_kind hname (by decide)
    refine List.forall_mem_cons.mpr ⟨hperiod', List.forall_mem_cons.mpr
      ⟨hname', hoperands.forall_tokens ?_ ?_⟩⟩
    · -- operands are made of their parts, with a comma between them at most
      intro _ _ h token hmem
      exact not_endsLine_of_isOperandPart (h.parts.2 token hmem)
    · rintro _ (_ | hcomma)
      · exact List.forall_mem_nil _
      · exact List.forall_mem_singleton.mpr (not_endsLine_of_kind hcomma (by decide))
  | instruction hword _ hoperands =>
    have hword' := not_endsLine_of_kind hword (by decide)
    refine List.forall_mem_cons.mpr ⟨hword', hoperands.forall_tokens ?_ ?_⟩
    · intro _ _ h token hmem
      exact not_endsLine_of_isOperandPart (h.parts.2 token hmem)
    · rintro _ ⟨hcomma⟩
      exact List.forall_mem_singleton.mpr (not_endsLine_of_kind hcomma (by decide))

/-! ### Lines put together -/

/-- Kinds of tokens that only keep others apart or end a line, so that nothing comes of them. -/
def IsPunctuation (kind : TokenKind) : Prop :=
  kind ∈ [.comma, .colon, .period, .pound, .linebreak, .sourceEnd]

instance (kind : TokenKind) : Decidable (IsPunctuation kind) :=
  inferInstanceAs (Decidable (_ ∈ _))

theorem EndsLine.isPunctuation {token : Token} (h : EndsLine token) :
    IsPunctuation token.kind := by
  rcases h with h | h <;> rw [h] <;> decide

/-- A token with the node that it stands for alone. Digits are not among these, since there can be a
    minus in front of them. -/
inductive Leaf : Token → Node.Kind → Prop where
  | hex {word : Token} {value : Nat} (hkind : word.kind = .word)
    (hvalue : Line.HexNumber word.text value) (hfits : value < Word.count) :
    Leaf word (.number (BitVec.ofNat 16 value))
  | register {word : Token} {register : Register} (hkind : word.kind = .word)
    (hname : Register.ofName? word.text = some register) : Leaf word (.register register)
  | reference {word : Token} (hkind : word.kind = .word) (hform : ¬ IsHexForm word.text) :
    Leaf word .labelReference
  | string {token : Token} (hkind : token.kind = .string) :
    Leaf token (.string (String.ofList (Text.unescape token.text.toList)))
  | definition {word : Token} (hkind : word.kind = .word) : Leaf word .labelDefinition

/-- The name of a statement with the node that it stands for, and the flags in front of its
    operands. -/
inductive Head : Token → Node.Kind → Option Flags → Prop where
  | directive {name : Token} {directive : Directive} (hname : name.kind = .word)
    (hdirective : Directive.ofName? name.text = some directive) :
    Head name (.directive directive) none
  | instruction {word : Token} {mnemonic : Mnemonic} {flags? : Option Flags}
    (hword : word.kind = .word)
    (hinstruction : Keyword.lookup word.text = .instruction mnemonic flags?) :
    Head word (.instruction mnemonic none flags?) flags?

/-- Whether a form is kept by everything that lines are put together from. -/
structure Builds (form : Form) : Prop extends Composes form where
  punctuation {token : Token} (h : IsPunctuation token.kind) : form [token] []
  decimal {tokens : List Token} {nodes : List Node} (h : Decimal tokens nodes) : form tokens nodes
  leaf {token : Token} {kind : Node.Kind} (h : Leaf token kind) : form [token] [.leaf kind token]
  statement {token : Token} {kind : Node.Kind} {flags? : Option Flags} {tokens : List Token}
    {operands : List Node} (h : Head token kind flags?) (hoperands : form tokens operands) :
    form (token :: tokens)
      [⟨kind, some token, (flags?.map (Line.flagsNode · token)).toList ++ operands⟩]

section Builds

variable {form : Form} {kind : TokenKind}

/-- Punctuation in front changes nothing. -/
theorem Builds.behind {token : Token} (hform : Builds form) (htoken : token.kind = kind)
    (hkind : IsPunctuation kind) (h : form tokens nodes) : form (token :: tokens) nodes :=
  hform.append (hform.punctuation (by rwa [htoken])) h

/-- A mark that may be missing is built of punctuation, if of anything. -/
theorem Optional.built (h : Optional kind tokens) (hform : Builds form)
    (hkind : IsPunctuation kind) : form tokens [] := by
  cases h with
  | none => exact hform.none
  | some htoken => exact hform.punctuation (by rwa [htoken])

/-- A mark is built of punctuation. -/
theorem Single.built (h : Single kind tokens) (hform : Builds form) (hkind : IsPunctuation kind) :
    form tokens [] := by
  obtain ⟨htoken⟩ := h
  exact hform.punctuation (by rwa [htoken])

/-- Numbers are built of leaves and decimal numbers. -/
theorem Number.built (h : Number tokens nodes) (hform : Builds form) : form tokens nodes := by
  cases h with
  | hex hkind hvalue hfits => exact hform.leaf (.hex hkind hvalue hfits)
  | decimal hpound hdecimal =>
    exact hform.append (hpound.built hform (by decide)) (hform.decimal hdecimal)

/-- Operands of directives are built of leaves and numbers. -/
theorem DirectiveOperand.built (h : DirectiveOperand tokens nodes) (hform : Builds form) :
    form tokens nodes := by
  cases h with
  | number h => exact h.built hform
  | label hkind hlabel => exact hform.leaf (.reference hkind hlabel)
  | string hkind => exact hform.leaf (.string hkind)

/-- So are operands of instructions. -/
theorem InstructionOperand.built (h : InstructionOperand tokens nodes) (hform : Builds form) :
    form tokens nodes := by
  cases h with
  | register hkind hname => exact hform.leaf (.register hkind hname)
  | number h => exact h.built hform
  | label hkind _ hlabel => exact hform.leaf (.reference hkind hlabel)

/-- Statements are built of their operands, behind what they start with. -/
theorem Statement.built (h : Statement tokens nodes) (hform : Builds form) : form tokens nodes := by
  cases h with
  | empty => exact hform.none
  | directive hperiod hname hdirective hoperands =>
    have hbuilt := hoperands.composed hform.toComposes (fun _ _ h => h.built hform)
      fun _ h => h.built hform (by decide)
    have hstatement := hform.statement (.directive hname hdirective) hbuilt
    exact hform.behind hperiod (by decide) hstatement
  | instruction hword hinstruction hoperands =>
    have hbuilt := hoperands.composed hform.toComposes (fun _ _ h => h.built hform)
      fun _ h => h.built hform (by decide)
    exact hform.statement (.instruction hword hinstruction) hbuilt

/-- **What is kept by everything that lines are put together from holds of lines.** -/
theorem Line.built (h : Line tokens nodes) (hform : Builds form) : form tokens nodes := by
  cases h with
  | unlabelled _ hstatement => exact hstatement.built hform
  | labelled hlabel _ hstatement =>
    exact hform.append (hform.leaf (.definition hlabel.1)) (hstatement.built hform)
  | labelledColon hlabel hcolon hstatement =>
    exact hform.append (hform.leaf (.definition hlabel.1))
      (hform.behind hcolon (by decide) (hstatement.built hform))

end Builds

/-! ### Where tokens stand -/

/-- Whether some tokens stand at a place of a sequence, one behind the other. -/
def Spells (tokens : Nat → Token) : Nat → List Token → Prop
  | _, [] => True
  | start, token :: rest => tokens start = token ∧ Spells tokens (start + 1) rest

section Spelling

variable {tokens : Nat → Token} {start : Nat} {token : Token} {first rest : List Token}

/-- The place behind some tokens is that of the others, from behind the first on. -/
theorem add_length_cons : start + (token :: rest).length = start + 1 + rest.length := by
  rw [List.length_cons, Nat.add_right_comm, Nat.add_assoc]

/-- Behind two pieces is behind the second, which is behind the first. -/
theorem add_length_append :
    start + (first ++ rest).length = start + first.length + rest.length := by
  rw [List.length_append, Nat.add_assoc]

/-- A piece stands where its first token does, with the rest behind it. -/
@[simp] theorem spells_cons_iff :
    Spells tokens start (token :: rest) ↔ tokens start = token ∧ Spells tokens (start + 1) rest :=
  Iff.rfl

theorem spells_singleton_iff : Spells tokens start [token] ↔ tokens start = token :=
  and_iff_left trivial

/-- Two pieces stand where the first does, with the second behind it. -/
theorem spells_append_iff :
    Spells tokens start (first ++ rest) ↔
      Spells tokens start first ∧ Spells tokens (start + first.length) rest := by
  induction first generalizing start with
  | nil => simp [Spells]
  | cons token first ih =>
    rw [List.cons_append, spells_cons_iff, spells_cons_iff, ih, and_assoc, add_length_cons]

/-- Whether a piece of source of some form, with some nodes, stands between two places. -/
abbrev Spans (form : Form) (tokens : Nat → Token) (start position : Nat) (nodes : List Node) :
    Prop :=
  ∃ spelling, form spelling nodes ∧ Spells tokens start spelling ∧
    position = start + spelling.length

end Spelling

end LC3.Grammar
