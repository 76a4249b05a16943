import LC3.Proofs.Extent
import LC3.Proofs.LineGrammar

namespace LC3

/-!
# How far a line goes

The rule of a line never looks for anything behind the token that ends its line: what it reads and
the errors that it finds are on the line.

* `Line.avoids_label`, `Line.avoids_statement` — no part of a line consumes the token that ends it.
* `Line.verdict_run_line`, `Line.exists_run_line` — a line always has an outcome, is never rejected,
  and has its errors at its own tokens.
-/

namespace Line

open Grammar

/-! ### Parts of a line -/

/-- A decision that consumes nothing. -/
private theorem avoids_zero {decision : Decision} {first second : Token}
    (h : decision.extent = 0) : decision.Avoids EndsLine first second := by
  refine ⟨?_, ?_, ?_⟩ <;> rw [h] <;> simp

/-- A decision that consumes one token, or stops behind it, for a token that does not end a line. -/
private theorem avoids_one {decision : Decision} {first second : Token}
    (h : decision.extent = 1) (hfirst : ¬ EndsLine first) :
    decision.Avoids EndsLine first second := by
  refine ⟨?_, fun _ => hfirst, ?_⟩ <;> rw [h] <;> simp

/-- A rule that consumes at most one token, which is of a kind that does not end a line. -/
private theorem avoids_of_kind {expectation : String} {decide : Token → Token → Decision}
    (kind : TokenKind) (hnone : kind ∉ [.linebreak, .sourceEnd])
    (hother : ∀ first second, first.kind ≠ kind → (decide first second).extent = 0)
    (hsame : ∀ first second, first.kind = kind → (decide first second).extent ≤ 1) :
    (Rule.primitive expectation decide).Avoids EndsLine := by
  refine .primitive fun first second => ?_
  by_cases hkind : first.kind = kind
  · have hfirst := not_endsLine_of_kind hkind hnone
    rcases Nat.le_one_iff_eq_zero_or_eq_one.mp (hsame first second hkind) with hzero | hone
    · exact avoids_zero hzero
    · exact avoids_one hone hfirst
  · exact avoids_zero (hother first second hkind)

/-- A token of a kind that does not end lines stays on the line. -/
private theorem avoids_atom {kind : TokenKind} (hnone : kind ∉ [.linebreak, .sourceEnd]) :
    (Rule.atom kind).Avoids EndsLine := by
  refine avoids_of_kind kind hnone ?_ ?_
  · intro first second hkind
    rw [if_neg hkind]
    rfl
  · intro first second hkind
    rw [if_pos hkind]
    exact Nat.le_refl _

private theorem avoids_operand {expectation : String} {kind : TokenKind}
    {read : String → Option Node.Kind} (hnone : kind ∉ [.linebreak, .sourceEnd]) :
    (Rule.operand expectation kind read).Avoids EndsLine := by
  refine avoids_of_kind kind hnone ?_ ?_
  · intro first second hkind
    rw [if_neg hkind]
    rfl
  · intro first second hkind
    rw [if_pos hkind]
    cases read first.text with
    | none => exact Nat.zero_le _
    | some payload => exact Nat.le_refl _

/-- The label of a line stays on it. -/
theorem avoids_label : label.Avoids EndsLine := by
  refine .primitive fun word next => ?_
  by_cases hword : word.kind = .word
  · have hfirst := not_endsLine_of_kind hword (by decide)
    rw [if_neg (not_not_intro hword)]
    by_cases hcolon : next.kind = .colon
    · rw [if_pos hcolon]
      exact ⟨Nat.le_refl _, fun _ => hfirst, fun _ => not_endsLine_of_kind hcolon (by decide)⟩
    · rw [if_neg hcolon]
      split
      · exact avoids_zero rfl
      · exact avoids_one rfl hfirst
  · rw [if_pos hword]
    exact avoids_zero rfl

private theorem avoids_mnemonic : mnemonic.Avoids EndsLine := by
  refine avoids_of_kind .word (by decide) ?_ ?_
  · intro word next hword
    rw [if_pos hword]
    rfl
  · intro word next hword
    rw [if_neg (not_not_intro hword)]
    cases Keyword.lookup word.text with
    | instruction => exact Nat.le_refl _
    | repeatedFlag => exact Nat.zero_le _
    | unknown => exact Nat.zero_le _

private theorem avoids_directiveName : directiveName.Avoids EndsLine := by
  refine avoids_of_kind .word (by decide) ?_ ?_
  · intro word next hword
    rw [if_pos hword]
    rfl
  · intro word next hword
    rw [if_neg (not_not_intro hword)]
    cases Directive.ofName? word.text with
    | none => exact Nat.zero_le _
    | some => exact Nat.le_refl _

/-- A hexadecimal number stays on the line. -/
private theorem avoids_hexNumber : hexNumber.Avoids EndsLine := by
  refine avoids_of_kind .word (by decide) ?_ ?_
  · intro word next hword
    rw [if_pos hword]
    rfl
  · intro word next hword
    rw [if_neg (not_not_intro hword)]
    cases (hexDigits? word.text.toList).bind Text.hexValue? with
    | none => exact Nat.zero_le _
    | some value =>
      dsimp only
      split
      · exact Nat.le_refl _
      · exact Nat.zero_le _

/-- A decimal number stays on the line. -/
private theorem avoids_decimalNumber : decimalNumber.Avoids EndsLine := by
  refine .primitive fun first second => ?_
  -- digits that cannot be read end the rule behind the sign, those that can behind themselves
  have hdigits : ∀ {skipped : Nat} {digits : Token} {sign : Word → Word},
      (decimalDigits skipped digits sign).extent = 0 ∨
        (decimalDigits skipped digits sign).extent = skipped ∨
        digits.kind = .number ∧ (decimalDigits skipped digits sign).extent = skipped + 1 := by
    intro skipped digits sign
    unfold decimalDigits
    by_cases hkind : digits.kind = .number
    · rw [if_neg (not_not_intro hkind)]
      cases decimalValueFrom 0 digits.text.toList with
      | error error => exact .inr (.inl rfl)
      | ok value => exact .inr (.inr ⟨hkind, rfl⟩)
    · rw [if_pos hkind]
      exact .inl rfl
  by_cases hminus : first.kind = .minus
  · have hfirst := not_endsLine_of_kind hminus (by decide)
    rw [if_pos hminus]
    rcases hdigits with h | h | ⟨hkind, h⟩
    · exact avoids_zero h
    · exact avoids_one h hfirst
    · exact ⟨Nat.le_of_eq h, fun _ => hfirst, fun _ => not_endsLine_of_kind hkind (by decide)⟩
  · rw [if_neg hminus]
    rcases hdigits with h | h | ⟨hkind, h⟩
    · exact avoids_zero h
    · exact avoids_zero h
    · exact avoids_one h (not_endsLine_of_kind hkind (by decide))

private theorem avoids_number : number.Avoids EndsLine := by
  have hpound : (Rule.all [.atom .pound, .commit decimalNumber]).Avoids EndsLine :=
    .all ((avoids_atom (by decide)).pair (.commit avoids_decimalNumber))
  exact .expecting (.any (avoids_hexNumber.triple hpound avoids_decimalNumber))

private theorem avoids_directiveOperand : directiveOperand.Avoids EndsLine :=
  .any (avoids_number.triple (avoids_operand (by decide)) (avoids_operand (by decide)))

private theorem avoids_instructionOperand : instructionOperand.Avoids EndsLine :=
  .any ((avoids_operand (by decide)).triple avoids_number (avoids_operand (by decide)))

/-- The operands of a statement stay on its line if each does, and so do the gaps. -/
private theorem avoids_operands {operand further : Rule} (hoperand : operand.Avoids EndsLine)
    (hfurther : further.Avoids EndsLine) :
    (Rule.maybe (.all [operand, .many further])).Avoids EndsLine :=
  .times (.all (hoperand.pair (.times hfurther)))

private theorem avoids_directive : directive.Avoids EndsLine := by
  have hfurther : (Rule.all [.maybe (.atom .comma), directiveOperand]).Avoids EndsLine := by
    have hcomma : (Rule.maybe (.atom .comma)).Avoids EndsLine :=
      .times (avoids_atom (by decide))
    exact .all (hcomma.pair avoids_directiveOperand)
  have hperiod : (Rule.atom .period).Avoids EndsLine := avoids_atom (by decide)
  have hoperands := avoids_operands avoids_directiveOperand hfurther
  exact .expecting (.subtree (.all (hperiod.triple avoids_directiveName hoperands)))

private theorem avoids_instruction : instruction.Avoids EndsLine := by
  have hfurther : (Rule.all [.atom .comma, .commit instructionOperand]).Avoids EndsLine :=
    .all ((avoids_atom (by decide)).pair (.commit avoids_instructionOperand))
  have hoperands := avoids_operands avoids_instructionOperand hfurther
  exact .expecting (.subtree (.all (avoids_mnemonic.pair hoperands)))

/-- The statement of a line stays on it. -/
theorem avoids_statement : (Rule.any [directive, instruction]).Avoids EndsLine :=
  .any (avoids_directive.pair avoids_instruction)

/-! ### Lines -/

variable {tokens : Nat → Token} {budget start limit : Nat} {outcome : Outcome}

/-- What may be there is never rejected. -/
theorem verdict_run_maybe {rule : Rule}
    (h : (Rule.maybe rule).run (.ofTokens tokens) budget start = some outcome) :
    outcome.verdict ≠ .rejected := by
  rw [Rule.maybe, Rule.run] at h
  obtain ⟨first, -, ⟨-, rfl⟩ | ⟨hfailed, rfl⟩ | ⟨-, rest, rfl, hrest⟩⟩ :=
    Rule.runTimes_succ_eq_some_iff.mp h
  · exact Verdict.noConfusion
  · rw [hfailed]
    decide
  · -- one round is all that is allowed, and then nothing more is needed
    have hlast : rest.verdict = .matched := by
      split at hrest
      case isTrue => rw [hrest]; rfl
      case isFalse => rw [← Option.some.inj hrest]; rfl
    obtain ⟨verdict, position, nodes, errors⟩ := rest
    obtain rfl : verdict = .matched := hlast
    exact Verdict.noConfusion

/-- What must not be rejected is not. -/
theorem verdict_run_commit {rule : Rule}
    (h : (Rule.commit rule).run (.ofTokens tokens) budget start = some outcome) :
    outcome.verdict ≠ .rejected := by
  rw [Rule.run_commit, Option.map_eq_some_iff] at h
  obtain ⟨⟨verdict, position, nodes, errors⟩, -, rfl⟩ := h
  cases verdict <;> exact Verdict.noConfusion

/-- A sequence of rules that are never rejected is not rejected. -/
private theorem verdict_runAll {rules : List Rule}
    (hrules : ∀ rule ∈ rules, ∀ start outcome,
      rule.run (.ofTokens tokens) budget start = some outcome → outcome.verdict ≠ .rejected)
    (h : Rule.runAll (.ofTokens tokens) budget rules start = some outcome) :
    outcome.verdict ≠ .rejected := by
  induction rules generalizing start outcome with
  | nil =>
    rw [Rule.runAll] at h
    rw [← Option.some.inj h]
    exact Verdict.noConfusion
  | cons rule rules ih =>
    obtain ⟨hrule, hrules⟩ := List.forall_mem_cons.mp hrules
    obtain ⟨first, hfirst, ⟨-, rest, hrest, rfl⟩ | ⟨-, rfl⟩⟩ :=
      Rule.runAll_cons_eq_some_iff.mp h
    · rw [Outcome.verdict_rewind]
      show rest.verdict ≠ .rejected
      exact ih hrules hrest
    · -- the first rule does not match, and is never rejected
      rw [Outcome.verdict_rewind]
      exact hrule start first hfirst

/-- A line is never rejected. -/
theorem verdict_run_line (h : line.run (.ofTokens tokens) budget start = some outcome) :
    outcome.verdict ≠ .rejected := by
  rw [line, Rule.run] at h
  refine verdict_runAll ?_ h
  -- the label and the statement may be missing, and the end of the line must not be
  simp only [List.forall_mem_cons, List.not_mem_nil, false_implies, implies_true, and_true]
  exact ⟨fun _ _ => verdict_run_maybe, fun _ _ => verdict_run_maybe, fun _ _ => verdict_run_commit⟩

/-- A sequence starts with a rule that stays on the line. -/
private theorem exists_runAll_cons {rule : Rule} {rules : List Rule} (hrule : rule.Avoids EndsLine)
    (hstop : EndsLine (tokens limit)) (hstart : start ≤ limit) (hbudget : limit - start < budget)
    (hrules : ∀ position, start ≤ position → position ≤ limit →
      ∃ rest, Rule.runAll (.ofTokens tokens) budget rules position = some rest ∧
        rest.Located tokens position limit) :
    ∃ outcome, Rule.runAll (.ofTokens tokens) budget (rule :: rules) start = some outcome ∧
      outcome.Located tokens start limit := by
  obtain ⟨first, hfirst, hwithin⟩ := hrule.exists_run hstop hstart hbudget
  by_cases hmatched : first.verdict = .matched
  · -- the first rule matches, so the others go on behind it on the same line
    obtain ⟨rest, hrest, hlocated⟩ := hrules _ hwithin.forward hwithin.atMost
    refine ⟨_, Rule.runAll_cons_eq_some_iff.mpr
      ⟨first, hfirst, .inl ⟨hmatched, rest, hrest, rfl⟩⟩, ?_⟩
    intro fault hfault
    rw [Outcome.errors_rewind] at hfault
    rcases List.mem_append.mp hfault with hfault | hfault
    · exact hwithin.located fault hfault
    · exact hlocated.earlier hwithin.forward fault hfault
  · -- the first rule does not match, so its errors are all there are
    refine ⟨_, Rule.runAll_cons_eq_some_iff.mpr ⟨first, hfirst, .inr ⟨hmatched, rfl⟩⟩, ?_⟩
    intro fault hfault
    rw [Outcome.errors_rewind] at hfault
    exact hwithin.located fault hfault

/-- The end of a line has an outcome, with its error at the token where the end was expected. -/
private theorem exists_runAll_lineEnd (hstart : start ≤ limit) :
    ∃ outcome, Rule.runAll (.ofTokens tokens) budget [.commit lineEnd] start = some outcome ∧
      outcome.Located tokens start limit := by
  -- the end of the line is there, or the rule says that it was expected
  by_cases hend : EndsLine (tokens start)
  · exact ⟨_, Rule.runAll_singleton_eq_success_iff.mpr (Rule.run_commit_eq_success_iff.mpr
      (run_lineEnd_eq_success_iff.mpr ⟨hend, rfl, rfl⟩)), fun _ h => absurd h List.not_mem_nil⟩
  · have hrefusal : lineEnd.run (.ofTokens tokens) budget start = some (.refusal start) := by
      rw [lineEnd, Rule.run_primitive_eq_refusal_iff]
      rw [EndsLine] at hend
      revert hend
      cases (tokens start).kind <;> simp
    have hcommit : (Rule.commit lineEnd).run (.ofTokens tokens) budget start =
        some ((Outcome.refusal start).insist lineEnd.expects (tokens start)) := by
      rw [Rule.run_commit, hrefusal]
      rfl
    refine ⟨_, Rule.runAll_cons_eq_some_iff.mpr ⟨_, hcommit, .inr ⟨Verdict.noConfusion, rfl⟩⟩, ?_⟩
    intro fault hfault
    rw [List.mem_singleton.mp hfault]
    exact ⟨start, Nat.le_refl _, hstart, rfl⟩

/-- **Lines end.** The rule of a line has an outcome, and finds its errors at tokens of the line,
    that which ends it included. -/
theorem exists_run_line (hstop : EndsLine (tokens limit)) (hstart : start ≤ limit)
    (hbudget : limit - start < budget) :
    ∃ outcome, line.run (.ofTokens tokens) budget start = some outcome ∧
      outcome.Located tokens start limit := by
  rw [line, Rule.run]
  refine exists_runAll_cons (.times avoids_label) hstop hstart hbudget ?_
  intro middle hforward hmiddle
  refine exists_runAll_cons (.times avoids_statement) hstop hmiddle (by omega) ?_
  intro last _ hlast
  exact exists_runAll_lineEnd hlast

end Line

end LC3
