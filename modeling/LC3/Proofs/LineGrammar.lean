import LC3.Proofs.Operands

namespace LC3

/-!
# Which lines are read

The rule of a line looks ahead, repeats greedily, goes back and cuts. Still it matches exactly the
lines of the grammar, and adds the nodes that the grammar gives them.

* `Line.ReadsOperands` — a rule of operands and one of what follows an operand, as the grammar has
  them.
* `Line.statement_of_run`, `Line.run_statement_eq_success` — the statement of a line.
* `Line.line_of_run`, `Line.run_line_eq_success` — lines, and both as
  `Line.run_line_eq_success_iff`.
-/

namespace Line

open Outcome (success refusal)
open Grammar

variable {tokens : Nat → Token} {budget start position : Nat} {nodes : List Node}

/-! ### Lists of operands -/

/-- A rule that reads the operands of a statement, and one that reads a further operand with the gap
    in front of it. Neither goes on behind the end of a line. -/
structure ReadsOperands (tokens : Nat → Token) (budget : Nat) (operand further : Rule)
    (form : Form) (gap : List Token → Prop) : Prop where
  operand_iff : ∀ {start position nodes},
    operand.run (.ofTokens tokens) budget start = some (success position nodes) ↔
      Spans form tokens start position nodes
  further_iff : ∀ {start position nodes},
    further.run (.ofTokens tokens) budget start = some (success position nodes) ↔
      ∃ between spelling, gap between ∧ form spelling nodes ∧
        Spells tokens start (between ++ spelling) ∧ position = start + (between ++ spelling).length
  ne_nil : ∀ {spelling nodes}, form spelling nodes → spelling ≠ []
  operand_end : ∀ {start}, EndsLine (tokens start) →
    operand.run (.ofTokens tokens) budget start = some (refusal start)
  further_end : ∀ {start}, EndsLine (tokens start) →
    further.run (.ofTokens tokens) budget start = some (refusal start)

namespace ReadsOperands

variable {operand further : Rule} {form : Form} {gap : List Token → Prop}
  {spelling : List Token}

/-- Rounds of further operands are further operands of the grammar. -/
private theorem more_of_repeats (h : ReadsOperands tokens budget operand further form gap)
    (hrounds : Rule.Repeats (further.run (.ofTokens tokens) budget) start position nodes) :
    Spans (More form gap) tokens start position nodes := by
  -- the induction is on the rounds, and each of them that consumes tokens is one operand more
  induction hrounds with
  | stop => exact ⟨[], .none, trivial, rfl⟩
  | idle hidle =>
    -- a round that consumes nothing would be an operand without tokens
    obtain ⟨between, spelling, -, hform, -, hlength⟩ := h.further_iff.mp hidle
    rw [List.length_append] at hlength
    have hpositive := List.length_pos_iff.mpr (h.ne_nil hform)
    omega
  | again hfirst _ _ ih =>
    obtain ⟨between, spelling, hgap, hform, hspells, rfl⟩ := h.further_iff.mp hfirst
    obtain ⟨rest, hmore, hrest, rfl⟩ := ih
    refine ⟨_, .next hgap hform hmore, spells_append_iff.mpr ⟨hspells, hrest⟩, ?_⟩
    exact add_length_append.symm

/-- Further operands of the grammar are read in rounds, if the line ends behind them. -/
private theorem repeats_of_more (h : ReadsOperands tokens budget operand further form gap)
    (hmore : More form gap spelling nodes) (hspells : Spells tokens start spelling)
    (hend : EndsLine (tokens (start + spelling.length))) :
    Rule.Repeats (further.run (.ofTokens tokens) budget) start (start + spelling.length) nodes := by
  induction hmore generalizing start with
  | none =>
    -- greed stops here only because the line does
    exact .stop (h.further_end hend)
  | @next between spelling rest nodes others hgap hform hmore ih =>
    obtain ⟨hfirst, hrest⟩ := spells_append_iff.mp hspells
    have hround := h.further_iff.mpr ⟨between, spelling, hgap, hform, hfirst, rfl⟩
    rw [add_length_append] at hend ⊢
    have hforward : start < start + (between ++ spelling).length := by
      have hpositive := List.length_pos_iff.mpr (h.ne_nil hform)
      rw [List.length_append]
      omega
    exact .again hround hforward (ih hrest hend)

/-- Operands that are read are those of the grammar. -/
theorem operands_of_run (h : ReadsOperands tokens budget operand further form gap)
    (hrun : (Rule.maybe (.all [operand, .many further])).run (.ofTokens tokens) budget start =
      some (success position nodes)) :
    Spans (Operands form gap) tokens start position nodes := by
  rcases Rule.run_maybe_eq_success_iff.mp hrun with hall | ⟨-, rfl, rfl⟩
  · obtain ⟨middle, before, behind, hfirst, hmany, rfl⟩ := Rule.run_pair_eq_success_iff.mp hall
    obtain ⟨spelling, hform, hspells, rfl⟩ := h.operand_iff.mp hfirst
    obtain ⟨rest, hmore, hfurther, rfl⟩ := h.more_of_repeats (Rule.repeats_of_run_many hmany)
    exact ⟨_, .first hform hmore, spells_append_iff.mpr ⟨hspells, hfurther⟩,
      add_length_append.symm⟩
  · exact ⟨[], .none, trivial, rfl⟩

/-- Operands of the grammar are read, if the line ends behind them. -/
theorem run_operands_eq_success (h : ReadsOperands tokens budget operand further form gap)
    (hoperands : Operands form gap spelling nodes) (hspells : Spells tokens start spelling)
    (hend : EndsLine (tokens (start + spelling.length))) (hbudget : spelling.length < budget) :
    (Rule.maybe (.all [operand, .many further])).run (.ofTokens tokens) budget start =
      some (success (start + spelling.length) nodes) := by
  rw [Rule.run_maybe_eq_success_iff]
  cases hoperands with
  | none =>
    refine .inr ⟨?_, rfl, rfl⟩
    rw [Rule.run]
    exact Rule.runAll_cons_eq_refusal (h.operand_end hend)
  | @first spelling rest nodes others hform hmore =>
    obtain ⟨hfirst, hrest⟩ := spells_append_iff.mp hspells
    rw [add_length_append] at hend ⊢
    rw [List.length_append] at hbudget
    have hoperand := h.operand_iff.mpr ⟨spelling, hform, hfirst, rfl⟩
    have hmany := Rule.run_many_eq_success (h.repeats_of_more hmore hrest hend) (by omega)
    exact .inl (Rule.run_pair_eq_success_iff.mpr ⟨_, _, _, hoperand, hmany, rfl⟩)

end ReadsOperands

/-- A token that ends a line is none of another kind. -/
private theorem kind_ne_of_endsLine {kind : TokenKind} (h : EndsLine (tokens start))
    (hkind : kind ∉ [.linebreak, .sourceEnd]) : (tokens start).kind ≠ kind := by
  intro hsame
  exact not_endsLine_of_kind hsame hkind h

/-- A token that ends a line starts no operand. -/
private theorem run_number_eq_refusal_of_endsLine (h : EndsLine (tokens start)) :
    number.run (.ofTokens tokens) budget start = some (refusal start) := by
  refine run_number_eq_refusal ?_ ?_
  · intro hword
    exact absurd hword (kind_ne_of_endsLine h (by decide))
  · rcases h with h | h <;> rw [h] <;> decide

/-- At the end of a line, no operand of one token is read. -/
private theorem run_operand_eq_refusal_of_endsLine {expectation : String} {kind : TokenKind}
    {read : String → Option Node.Kind} (h : EndsLine (tokens start)) (hkind : kind ∉ [.linebreak,
      .sourceEnd]) :
    (Rule.operand expectation kind read).run (.ofTokens tokens) budget start =
      some (refusal start) := by
  refine run_operand_eq_refusal_iff.mpr ?_
  intro hsame
  exact absurd hsame (kind_ne_of_endsLine h hkind)

/-- At the end of a line, no operand of a directive is read. -/
private theorem run_directiveOperand_eq_refusal_of_endsLine (h : EndsLine (tokens start)) :
    directiveOperand.run (.ofTokens tokens) budget start = some (refusal start) := by
  rw [directiveOperand, Rule.run]
  exact Rule.runAny_cons_eq_refusal_iff.mpr ⟨run_number_eq_refusal_of_endsLine h,
    Rule.runAny_cons_eq_refusal_iff.mpr ⟨run_operand_eq_refusal_of_endsLine h (by decide),
      Rule.runAny_cons_eq_refusal_iff.mpr ⟨run_operand_eq_refusal_of_endsLine h (by decide),
        Rule.runAny_nil⟩⟩⟩

/-- At the end of a line, no operand of an instruction is read. -/
private theorem run_instructionOperand_eq_refusal_of_endsLine (h : EndsLine (tokens start)) :
    instructionOperand.run (.ofTokens tokens) budget start = some (refusal start) := by
  rw [instructionOperand, Rule.run]
  exact Rule.runAny_cons_eq_refusal_iff.mpr ⟨run_operand_eq_refusal_of_endsLine h (by decide),
    Rule.runAny_cons_eq_refusal_iff.mpr ⟨run_number_eq_refusal_of_endsLine h,
      Rule.runAny_cons_eq_refusal_iff.mpr ⟨run_operand_eq_refusal_of_endsLine h (by decide),
        Rule.runAny_nil⟩⟩⟩

/-- Operands of directives may have commas between them. -/
theorem readsOperands_directive :
    ReadsOperands tokens budget directiveOperand (.all [.maybe (.atom .comma), directiveOperand])
      DirectiveOperand (Optional .comma) where
  operand_iff := run_directiveOperand_eq_success_iff
  ne_nil := fun h => h.parts.1
  operand_end := run_directiveOperand_eq_refusal_of_endsLine
  further_iff := by
    intro start position nodes
    rw [Rule.run_pair_eq_success_iff]
    constructor
    · rintro ⟨middle, before, behind, hcomma, hoperand, rfl⟩
      obtain ⟨spelling, hform, hspells, rfl⟩ := run_directiveOperand_eq_success_iff.mp hoperand
      rcases Rule.run_maybe_eq_success_iff.mp hcomma with hcomma | ⟨-, rfl, rfl⟩
      · obtain ⟨hkind, rfl, rfl⟩ := run_atom_eq_success_iff.mp hcomma
        refine ⟨_, spelling, .some hkind, hform, ⟨rfl, hspells⟩, ?_⟩
        exact add_length_cons.symm
      · exact ⟨[], spelling, .none, hform, hspells, rfl⟩
    · rintro ⟨between, spelling, hgap, hform, hspells, rfl⟩
      cases hgap with
      | none =>
        -- an operand does not start with a comma, so none is taken
        have hfirst : (tokens start).kind ≠ .comma := by
          obtain ⟨hne, hparts⟩ := hform.parts
          obtain ⟨token, rest, rfl⟩ := List.exists_cons_of_ne_nil hne
          rw [hspells.1]
          exact kind_ne_comma_of_isOperandPart (hparts token List.mem_cons_self)
        exact ⟨start, [], nodes, Rule.run_maybe_eq_success_iff.mpr
          (.inr ⟨run_atom_eq_refusal hfirst, rfl, rfl⟩),
          run_directiveOperand_eq_success_iff.mpr ⟨spelling, hform, hspells, rfl⟩, rfl⟩
      | @some comma hkind =>
        obtain ⟨rfl, hspells⟩ := hspells
        refine ⟨start + 1, [], nodes, Rule.run_maybe_eq_success_iff.mpr
          (.inl (run_atom_eq_success_iff.mpr ⟨hkind, rfl, rfl⟩)),
          run_directiveOperand_eq_success_iff.mpr ⟨spelling, hform, hspells, ?_⟩, rfl⟩
        exact add_length_cons
  further_end := by
    intro start hend
    rw [Rule.run]
    refine Rule.runAll_cons_eq_refusal_of_rest (Rule.run_maybe_eq_success_iff.mpr
      (.inr ⟨run_atom_eq_refusal (kind_ne_of_endsLine hend (by decide)), rfl, rfl⟩)) ?_
    exact Rule.runAll_cons_eq_refusal (run_directiveOperand_eq_refusal_of_endsLine hend)

/-- Operands of instructions have commas between them. -/
theorem readsOperands_instruction :
    ReadsOperands tokens budget instructionOperand
      (.all [.atom .comma, .commit instructionOperand]) InstructionOperand (Single .comma) where
  operand_iff := run_instructionOperand_eq_success_iff
  ne_nil := fun h => h.parts.1
  operand_end := run_instructionOperand_eq_refusal_of_endsLine
  further_iff := by
    intro start position nodes
    rw [Rule.run_pair_eq_success_iff]
    constructor
    · -- the comma has to be there, and the operand behind it
      rintro ⟨middle, before, behind, hcomma, hoperand, rfl⟩
      obtain ⟨hkind, rfl, rfl⟩ := run_atom_eq_success_iff.mp hcomma
      obtain ⟨spelling, hform, hspells, rfl⟩ := run_instructionOperand_eq_success_iff.mp
        (Rule.run_commit_eq_success_iff.mp hoperand)
      refine ⟨_, spelling, .token hkind, hform, ⟨rfl, hspells⟩, ?_⟩
      exact add_length_cons.symm
    · -- what the grammar has between the operands is the comma
      rintro ⟨between, spelling, ⟨hkind⟩, hform, hspells, rfl⟩
      obtain ⟨rfl, hspells⟩ := hspells
      refine ⟨start + 1, [], nodes, run_atom_eq_success_iff.mpr ⟨hkind, rfl, rfl⟩,
        Rule.run_commit_eq_success_iff.mpr
          (run_instructionOperand_eq_success_iff.mpr ⟨spelling, hform, hspells, ?_⟩), rfl⟩
      exact add_length_cons
  further_end := by
    intro start hend
    rw [Rule.run]
    exact Rule.runAll_cons_eq_refusal (run_atom_eq_refusal (kind_ne_of_endsLine hend (by decide)))

/-! ### Statements -/

/-- A directive is named by a word that is in the list of directives. -/
private theorem run_directiveName_eq_success_iff :
    directiveName.run (.ofTokens tokens) budget start = some (success position nodes) ↔
      (tokens start).kind = .word ∧
        ∃ found, Directive.ofName? (tokens start).text = some found ∧ position = start + 1 ∧
          nodes = [.leaf (.directive found) (tokens start)] := by
  rw [directiveName, Rule.run_primitive_eq_success_iff]
  by_cases hkind : (tokens start).kind = .word
  · cases Directive.ofName? (tokens start).text <;> simp [hkind, and_comm, eq_comm]
  · simp [hkind]

/-- An instruction is named by a word that is looked up as one, which leaves a node for the
    flags. -/
private theorem run_mnemonic_eq_success_iff :
    mnemonic.run (.ofTokens tokens) budget start = some (success position nodes) ↔
      (tokens start).kind = .word ∧
        ∃ found flags?, Keyword.lookup (tokens start).text = .instruction found flags? ∧
          position = start + 1 ∧
          nodes = .leaf (.instruction found none flags?) (tokens start) ::
            (flags?.map (flagsNode · (tokens start))).toList := by
  rw [mnemonic, Rule.run_primitive_eq_success_iff]
  by_cases hkind : (tokens start).kind = .word
  · cases Keyword.lookup (tokens start).text with
    | instruction found flags? => simp [hkind, and_comm, eq_comm]
    | _ => simp [hkind]
  · simp [hkind]

/-- A directive is a statement of the grammar. -/
private theorem statement_of_run_directive
    (h : directive.run (.ofTokens tokens) budget start = some (success position nodes)) :
    Spans Statement tokens start position nodes := by
  rw [directive, Rule.run_expecting] at h
  obtain ⟨found, hfound, rfl⟩ := Rule.run_subtree_eq_success_iff.mp h
  obtain ⟨_, _, _, hperiod, ⟨_, _, operands, hname, hoperands, rfl⟩, rfl⟩ :=
    Rule.run_triple_eq_success_iff.mp hfound
  obtain ⟨hkind, rfl, rfl⟩ := run_atom_eq_success_iff.mp hperiod
  obtain ⟨hkind', found, hdirective, rfl, rfl⟩ := run_directiveName_eq_success_iff.mp hname
  obtain ⟨spelling, hform, hspells, rfl⟩ := readsOperands_directive.operands_of_run hoperands
  refine ⟨_, .directive hkind hkind' hdirective hform, ⟨rfl, rfl, hspells⟩, ?_⟩
  rw [add_length_cons, add_length_cons]

/-- An instruction is a statement of the grammar. -/
private theorem statement_of_run_instruction
    (h : instruction.run (.ofTokens tokens) budget start = some (success position nodes)) :
    Spans Statement tokens start position nodes := by
  rw [instruction, Rule.run_expecting] at h
  obtain ⟨found, hfound, rfl⟩ := Rule.run_subtree_eq_success_iff.mp h
  obtain ⟨_, _, operands, hmnemonic, hoperands, rfl⟩ := Rule.run_pair_eq_success_iff.mp hfound
  obtain ⟨hkind, found, flags?, hlookup, rfl, rfl⟩ := run_mnemonic_eq_success_iff.mp hmnemonic
  obtain ⟨spelling, hform, hspells, rfl⟩ := readsOperands_instruction.operands_of_run hoperands
  exact ⟨_, .instruction hkind hlookup hform, ⟨rfl, hspells⟩, add_length_cons.symm⟩

/-- A place where no directive starts. -/
private theorem run_directive_eq_refusal (h : (tokens start).kind ≠ .period) :
    directive.run (.ofTokens tokens) budget start = some (refusal start) := by
  rw [directive, Rule.run_expecting]
  refine Rule.run_subtree_eq_refusal ?_
  rw [Rule.run]
  exact Rule.runAll_cons_eq_refusal (run_atom_eq_refusal h)

/-- A place where no instruction starts. -/
private theorem run_instruction_eq_refusal (h : (tokens start).kind ≠ .word) :
    instruction.run (.ofTokens tokens) budget start = some (refusal start) := by
  rw [instruction, Rule.run_expecting]
  refine Rule.run_subtree_eq_refusal ?_
  rw [Rule.run]
  refine Rule.runAll_cons_eq_refusal ?_
  rw [mnemonic, Rule.run_primitive_eq_refusal_iff, if_pos h]

/-- **Statements that are read are those of the grammar.** -/
theorem statement_of_run
    (h : (Rule.maybe (.any [directive, instruction])).run (.ofTokens tokens) budget start =
      some (success position nodes)) :
    Spans Statement tokens start position nodes := by
  rcases Rule.run_maybe_eq_success_iff.mp h with h | ⟨-, rfl, rfl⟩
  · rw [Rule.run, Rule.runAny_cons_eq_success_iff, Rule.runAny_cons_eq_success_iff,
      Rule.runAny_nil] at h
    -- a period starts a directive, a word an instruction
    rcases h with h | ⟨-, h | ⟨-, h⟩⟩
    · exact statement_of_run_directive h
    · exact statement_of_run_instruction h
    · cases h
  · exact ⟨[], .empty, trivial, rfl⟩

/-- **Statements of the grammar are read**, if the line ends behind them. -/
theorem run_statement_eq_success {spelling : List Token} (h : Statement spelling nodes)
    (hspells : Spells tokens start spelling) (hend : EndsLine (tokens (start + spelling.length)))
    (hbudget : spelling.length < budget) :
    (Rule.maybe (.any [directive, instruction])).run (.ofTokens tokens) budget start =
      some (success (start + spelling.length) nodes) := by
  rw [Rule.run_maybe_eq_success_iff, Rule.run, Rule.runAny_cons_eq_success_iff,
    Rule.runAny_cons_eq_success_iff]
  cases h with
  | empty =>
    -- an empty statement: neither a directive nor an instruction starts at the end of a line
    refine .inr ⟨?_, rfl, rfl⟩
    have hend' : EndsLine (tokens start) := hend
    have hperiod : (tokens start).kind ≠ .period := kind_ne_of_endsLine hend' (by decide)
    have hword : (tokens start).kind ≠ .word := kind_ne_of_endsLine hend' (by decide)
    exact Rule.runAny_cons_eq_refusal_iff.mpr ⟨run_directive_eq_refusal hperiod,
      Rule.runAny_cons_eq_refusal_iff.mpr ⟨run_instruction_eq_refusal hword, Rule.runAny_nil⟩⟩
  | @directive period name found spelling operands hperiod hname hdirective hoperands =>
    obtain ⟨rfl, rfl, hspells⟩ := hspells
    rw [add_length_cons, add_length_cons] at hend ⊢
    have hbudget' : spelling.length < budget := by
      rw [List.length_cons, List.length_cons] at hbudget
      omega
    have hrun := readsOperands_directive.run_operands_eq_success hoperands hspells hend hbudget'
    refine .inl (.inl ?_)
    rw [directive, Rule.run_expecting, Rule.run_subtree_eq_success_iff]
    have hperiod' : (Rule.atom .period).run (.ofTokens tokens) budget start =
        some (success (start + 1) []) := run_atom_eq_success_iff.mpr ⟨hperiod, rfl, rfl⟩
    have hname' : directiveName.run (.ofTokens tokens) budget (start + 1) =
        some (success (start + 1 + 1) [.leaf (.directive found) (tokens (start + 1))]) :=
      run_directiveName_eq_success_iff.mpr ⟨hname, found, hdirective, rfl, rfl⟩
    exact ⟨_, Rule.run_triple_eq_success_iff.mpr
      ⟨_, _, _, hperiod', ⟨_, _, _, hname', hrun, rfl⟩, rfl⟩, rfl⟩
  | @instruction word found flags? spelling operands hword hlookup hoperands =>
    -- a word and the operands; no period, so that no directive is tried
    obtain ⟨rfl, hspells⟩ := hspells
    rw [add_length_cons] at hend ⊢
    have hbudget' : spelling.length < budget := Nat.lt_of_succ_lt hbudget
    have hrun := readsOperands_instruction.run_operands_eq_success hoperands hspells hend hbudget'
    have hperiod : (tokens start).kind ≠ .period := by simp [hword]
    refine .inl (.inr ⟨run_directive_eq_refusal hperiod, .inl ?_⟩)
    rw [instruction, Rule.run_expecting, Rule.run_subtree_eq_success_iff]
    exact ⟨_, Rule.run_pair_eq_success_iff.mpr ⟨_, _, _, run_mnemonic_eq_success_iff.mpr
      ⟨hword, found, flags?, hlookup, rfl, rfl⟩, hrun, rfl⟩, rfl⟩

/-! ### Lines -/

/-- A label is a word with a colon behind it, or one that is not reserved. -/
private theorem run_label_eq_success_iff :
    label.run (.ofTokens tokens) budget start = some (success position nodes) ↔
      (tokens start).kind = .word ∧
        ((tokens (start + 1)).kind = .colon ∧ position = start + 2 ∨
          (tokens (start + 1)).kind ≠ .colon ∧
            Keyword.isReserved (tokens start).text = false ∧ position = start + 1) ∧
        nodes = [.leaf .labelDefinition (tokens start)] := by
  rw [label, Rule.run_primitive_eq_success_iff]
  by_cases hkind : (tokens start).kind = .word
  · by_cases hcolon : (tokens (start + 1)).kind = .colon
    · -- the colon decides, whatever the word is
      rw [if_neg (not_not_intro hkind), if_pos hcolon]
      constructor
      · rintro ⟨taken, htaken, rfl⟩
        obtain ⟨rfl, rfl⟩ := Decision.accept.inj htaken
        exact ⟨hkind, .inl ⟨hcolon, rfl⟩, rfl⟩
      · rintro ⟨-, ⟨-, rfl⟩ | ⟨h, -⟩, rfl⟩
        · exact ⟨2, rfl, rfl⟩
        · exact absurd hcolon h
    · -- without a colon, the word must not be reserved
      cases hreserved : Keyword.isReserved (tokens start).text <;>
        simp [hkind, hcolon, and_comm, eq_comm]
  · simp [hkind]

/-- There is no label only where there is no word, or a reserved one without a colon. -/
private theorem run_label_eq_refusal_iff :
    label.run (.ofTokens tokens) budget start = some (refusal start) ↔
      ((tokens start).kind = .word →
        (tokens (start + 1)).kind ≠ .colon ∧ Keyword.isReserved (tokens start).text = true) := by
  rw [label, Rule.run_primitive_eq_refusal_iff]
  by_cases hkind : (tokens start).kind = .word
  · by_cases hcolon : (tokens (start + 1)).kind = .colon
    · simp [hkind, hcolon]
    · cases hreserved : Keyword.isReserved (tokens start).text <;> simp [hkind, hcolon]
  · simp [hkind]

/-- The place behind the token that ends a line: that of the source is not consumed. -/
def behind (position : Nat) (ending : Token) : Nat :=
  if ending.kind = .linebreak then position + 1 else position

/-- The end of a line is a line break, which is consumed, or the end of the source, which is not. -/
theorem run_lineEnd_eq_success_iff :
    lineEnd.run (.ofTokens tokens) budget start = some (success position nodes) ↔
      EndsLine (tokens start) ∧ position = behind start (tokens start) ∧ nodes = [] := by
  rw [lineEnd, Rule.run_primitive_eq_success_iff, EndsLine, behind]
  cases (tokens start).kind <;> simp [and_comm, eq_comm]

/-- What stands in front of the first token that ends a line is the line. -/
theorem eq_of_spells {body spelling : List Token} {ending : Token}
    (hbody : ∀ token ∈ body, ¬ EndsLine token) (hending : EndsLine ending)
    (hline : Spells tokens start (body ++ [ending]))
    (hspelling : ∀ token ∈ spelling, ¬ EndsLine token) (hspells : Spells tokens start spelling)
    (hend : EndsLine (tokens (start + spelling.length))) : spelling = body := by
  induction spelling generalizing start body with
  | nil =>
    cases body with
    | nil => rfl
    | cons token body =>
      have hfirst : tokens start = token := hline.1
      have hend' : EndsLine (tokens start) := hend
      rw [hfirst] at hend'
      exact absurd hend' (hbody token List.mem_cons_self)
  | cons token spelling ih =>
    obtain ⟨htoken, hrest⟩ := hspells
    cases body with
    | nil =>
      have hfirst : tokens start = ending := hline.1
      rw [← hfirst, htoken] at hending
      exact absurd hending (hspelling token List.mem_cons_self)
    | cons first body =>
      obtain ⟨hfirst, hline⟩ := hline
      rw [add_length_cons] at hend
      have htail := ih (fun token h => hbody token (List.mem_cons_of_mem _ h)) hline
        (fun token h => hspelling token (List.mem_cons_of_mem _ h)) hrest hend
      rw [htail, ← htoken, hfirst]

/-- The first token of a line is a colon exactly if that at its place is. -/
private theorem startsWithColon_iff {body : List Token} {ending : Token}
    (hending : EndsLine ending) (hspells : Spells tokens start (body ++ [ending])) :
    StartsWithColon body ↔ (tokens start).kind = .colon := by
  cases body with
  | nil =>
    obtain rfl := spells_singleton_iff.mp hspells
    rcases hending with h | h <;> simp [StartsWithColon, h]
  | cons token body =>
    obtain ⟨rfl, -⟩ := hspells
    simp [StartsWithColon]

/-- Whether a line starts with a label shows at its first two tokens. -/
private theorem startsWithLabel_iff {body : List Token} {ending : Token}
    (hending : EndsLine ending) (hspells : Spells tokens start (body ++ [ending])) :
    StartsWithLabel body ↔ (tokens start).kind = .word ∧
      ((tokens (start + 1)).kind = .colon ∨ Keyword.isReserved (tokens start).text = false) := by
  cases body with
  | nil =>
    obtain rfl := spells_singleton_iff.mp hspells
    rcases hending with h | h <;> simp [StartsWithLabel, h]
  | cons token body =>
    obtain ⟨rfl, hrest⟩ := hspells
    rw [StartsWithLabel, startsWithColon_iff hending hrest]

section Line

variable {body : List Token} {ending : Token} {middle middle' : Nat}
  {before between others : List Node}

/-- A statement that is read with the end of the line behind it is all of the line. -/
private theorem statement_of_run_rest (hbody : ∀ token ∈ body, ¬ EndsLine token)
    (hending : EndsLine ending) (hspells : Spells tokens start (body ++ [ending]))
    (hstatement : (Rule.maybe (.any [directive, instruction])).run (.ofTokens tokens) budget start =
      some (success middle between))
    (hend : (Rule.commit lineEnd).run (.ofTokens tokens) budget middle =
      some (success position others)) :
    Statement body (between ++ others) ∧ position = behind (start + body.length) ending := by
  obtain ⟨spelling, hform, hspelling, rfl⟩ := statement_of_run hstatement
  have hend' := Rule.run_commit_eq_success_iff.mp hend
  obtain ⟨hends, rfl, rfl⟩ := run_lineEnd_eq_success_iff.mp hend'
  -- the statement has no end of a line inside, so it reaches up to the first one
  obtain rfl := eq_of_spells hbody hending hspells hform.not_endsLine hspelling hends
  obtain ⟨-, hlast, -⟩ := spells_append_iff.mp hspells
  rw [hlast, List.append_nil]
  exact ⟨hform, rfl⟩

/-- A statement is read with the end of the line behind it, whatever label is in front of them. -/
private theorem exists_run_rest (hending : EndsLine ending) (hform : Statement body nodes)
    (hspells : Spells tokens start (body ++ [ending])) (hbudget : body.length < budget) :
    ∃ middle between others, (Rule.maybe (.any [directive, instruction])).run
        (.ofTokens tokens) budget start = some (success middle between) ∧
      (Rule.commit lineEnd).run (.ofTokens tokens) budget middle =
        some (success (behind (start + body.length) ending) others) ∧
      nodes = between ++ others := by
  obtain ⟨hstatement, hlast, -⟩ := spells_append_iff.mp hspells
  have hend : EndsLine (tokens (start + body.length)) := by
    rw [hlast]
    exact hending
  refine ⟨_, nodes, [], run_statement_eq_success hform hstatement hend hbudget, ?_,
    (List.append_nil _).symm⟩
  rw [Rule.run_commit_eq_success_iff, run_lineEnd_eq_success_iff, hlast]
  exact ⟨hending, rfl, rfl⟩

/-- A line with a label in front of what is read is one of the grammar. -/
private theorem line_of_run_label (hbody : ∀ token ∈ body, ¬ EndsLine token)
    (hending : EndsLine ending) (hspells : Spells tokens start (body ++ [ending]))
    (hlabel : label.run (.ofTokens tokens) budget start = some (success middle before))
    (hstatement : (Rule.maybe (.any [directive, instruction])).run (.ofTokens tokens) budget
      middle = some (success middle' between))
    (hend : (Rule.commit lineEnd).run (.ofTokens tokens) budget middle' =
      some (success position others)) :
    Grammar.Line body (before ++ (between ++ others)) ∧
      position = behind (start + body.length) ending := by
  obtain ⟨hkind, hcases, rfl⟩ := run_label_eq_success_iff.mp hlabel
  have hstarts : StartsWithLabel body := by
    rw [startsWithLabel_iff hending hspells]
    exact ⟨hkind, hcases.imp And.left fun h => h.2.1⟩
  obtain ⟨word, rest, rfl⟩ := hstarts.exists_cons
  obtain ⟨rfl, hspells⟩ := hspells
  obtain ⟨-, hrest⟩ := List.forall_mem_cons.mp hbody
  rcases hcases with ⟨hcolon, rfl⟩ | ⟨hcolon, -, rfl⟩
  · -- the colon belongs to the label, and the statement starts behind it
    have hstarts' := (startsWithColon_iff hending hspells).mpr hcolon
    obtain ⟨colon, tail, rfl⟩ := hstarts'.exists_cons
    obtain ⟨rfl, hspells⟩ := hspells
    obtain ⟨-, htail⟩ := List.forall_mem_cons.mp hrest
    obtain ⟨hform, rfl⟩ := statement_of_run_rest htail hending hspells hstatement hend
    rw [add_length_cons, add_length_cons]
    exact ⟨.labelledColon hstarts hcolon hform, rfl⟩
  · -- no colon: the statement starts behind the word
    have hnone : ¬ StartsWithColon rest := by
      rw [startsWithColon_iff hending hspells]
      exact hcolon
    obtain ⟨hform, rfl⟩ := statement_of_run_rest hrest hending hspells hstatement hend
    rw [add_length_cons]
    exact ⟨.labelled hstarts hnone hform, rfl⟩

/-- A line in which no label is found has none. -/
private theorem not_startsWithLabel_of_run (hending : EndsLine ending)
    (hspells : Spells tokens start (body ++ [ending]))
    (h : label.run (.ofTokens tokens) budget start = some (refusal start)) :
    ¬ StartsWithLabel body := by
  rw [startsWithLabel_iff hending hspells]
  rintro ⟨hkind, hlabel⟩
  obtain ⟨hcolon, hreserved⟩ := run_label_eq_refusal_iff.mp h hkind
  rcases hlabel with hlabel | hlabel
  · exact hcolon hlabel
  · rw [hreserved] at hlabel
    cases hlabel

/-- **Lines that are read are those of the grammar.** -/
theorem line_of_run (hbody : ∀ token ∈ body, ¬ EndsLine token) (hending : EndsLine ending)
    (hspells : Spells tokens start (body ++ [ending]))
    (h : line.run (.ofTokens tokens) budget start = some (success position nodes)) :
    Grammar.Line body nodes ∧ position = behind (start + body.length) ending := by
  obtain ⟨middle, before, _, hlabel, ⟨middle', between, others, hstatement, hend, rfl⟩, rfl⟩ :=
    Rule.run_triple_eq_success_iff.mp h
  rcases Rule.run_maybe_eq_success_iff.mp hlabel with hlabel | ⟨hnone, rfl, rfl⟩
  · exact line_of_run_label hbody hending hspells hlabel hstatement hend
  · obtain ⟨hform, rfl⟩ := statement_of_run_rest hbody hending hspells hstatement hend
    exact ⟨.unlabelled (not_startsWithLabel_of_run hending hspells hnone) hform, rfl⟩

/-- **Lines of the grammar are read**, with the token that ends them unless it ends the source. -/
theorem run_line_eq_success (hending : EndsLine ending)
    (hspells : Spells tokens start (body ++ [ending])) (hbudget : body.length < budget)
    (h : Grammar.Line body nodes) :
    line.run (.ofTokens tokens) budget start =
      some (success (behind (start + body.length) ending) nodes) := by
  refine Rule.run_triple_eq_success_iff.mpr ?_
  cases h with
  | unlabelled hlabel hform =>
    rw [startsWithLabel_iff hending hspells] at hlabel
    have hnone : label.run (.ofTokens tokens) budget start = some (refusal start) := by
      refine run_label_eq_refusal_iff.mpr fun hkind => ⟨fun h => hlabel ⟨hkind, .inl h⟩, ?_⟩
      by_contra hreserved
      exact hlabel ⟨hkind, .inr (Bool.eq_false_iff.mpr hreserved)⟩
    exact ⟨start, [], nodes, Rule.run_maybe_eq_success_iff.mpr (.inr ⟨hnone, rfl, rfl⟩),
      exists_run_rest hending hform hspells hbudget, rfl⟩
  | @labelled word body nodes hlabel hcolon hform =>
    obtain ⟨hkind, hcases⟩ := (startsWithLabel_iff hending hspells).mp hlabel
    obtain ⟨rfl, hspells⟩ := hspells
    rw [startsWithColon_iff hending hspells] at hcolon
    have hreserved := hcases.resolve_left hcolon
    have hword : label.run (.ofTokens tokens) budget start =
        some (success (start + 1) [.leaf .labelDefinition (tokens start)]) :=
      run_label_eq_success_iff.mpr ⟨hkind, .inr ⟨hcolon, hreserved, rfl⟩, rfl⟩
    rw [List.length_cons] at hbudget
    rw [add_length_cons]
    exact ⟨start + 1, _, nodes, Rule.run_maybe_eq_success_iff.mpr (.inl hword),
      exists_run_rest hending hform hspells (by omega), rfl⟩
  | @labelledColon word colon body nodes hlabel hcolon hform =>
    obtain ⟨hkind, -⟩ := (startsWithLabel_iff hending hspells).mp hlabel
    obtain ⟨rfl, rfl, hspells⟩ := hspells
    have hword : label.run (.ofTokens tokens) budget start =
        some (success (start + 2) [.leaf .labelDefinition (tokens start)]) :=
      run_label_eq_success_iff.mpr ⟨hkind, .inl ⟨hcolon, rfl⟩, rfl⟩
    rw [List.length_cons, List.length_cons] at hbudget
    rw [add_length_cons, add_length_cons]
    exact ⟨start + 2, _, nodes, Rule.run_maybe_eq_success_iff.mpr (.inl hword),
      exists_run_rest hending hform hspells (by omega), rfl⟩

/-- **Lines.** The rule of a line matches exactly the lines of the grammar, with the nodes that it
    gives them, and consumes the token that ends the line unless it ends the source. -/
theorem run_line_eq_success_iff (hbody : ∀ token ∈ body, ¬ EndsLine token)
    (hending : EndsLine ending) (hspells : Spells tokens start (body ++ [ending]))
    (hbudget : body.length < budget) :
    line.run (.ofTokens tokens) budget start = some (success position nodes) ↔
      Grammar.Line body nodes ∧ position = behind (start + body.length) ending := by
  constructor
  · exact line_of_run hbody hending hspells
  · rintro ⟨hline, rfl⟩
    exact run_line_eq_success hending hspells hbudget hline

end Line

end Line

end LC3
