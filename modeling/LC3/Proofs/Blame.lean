import LC3.Proofs.Backtracking
import LC3.Proofs.NumberReading
import LC3.Proofs.Places

namespace LC3

/-!
# What syntax errors are about

A line that cannot be read has an error with a reason and a place. The token at this place is the one
that the reason speaks of, and there is only one token at a place.

* `SyntaxError.IsAbout` — whether a token has what an error complains about.
* `Rule.Blames`, `Rule.Blames.blames_run` — rules that find their errors at tokens which have it.
* `Lexer.nth_eq_of_location_eq` — tokens at the same place are the same.
* `Context.blames_of_apply` — the errors of a source.
-/

/-- Whether a token has what a syntax error complains about. -/
def SyntaxError.IsAbout : SyntaxError → Token → Prop
  | unexpectedToken _ found, token => token.kind = found
  | unknownInstruction word, token =>
    token.kind = .word ∧ token.text = word ∧ Keyword.lookup word = .unknown
  | unknownDirective word, token =>
    token.kind = .word ∧ token.text = word ∧ Directive.ofName? word = none
  | repeatedFlag letter, token =>
    token.kind = .word ∧ Keyword.lookup token.text = .repeatedFlag letter
  | invalidNumber, token =>
    token.kind = .number ∧ Line.DecimalReading 0 token.text.toList (.error invalidNumber)
  | numberTooLarge, token =>
    token.kind = .number ∧ Line.DecimalReading 0 token.text.toList (.error numberTooLarge) ∨
      token.kind = .word ∧ ∃ value, Line.HexNumber token.text value ∧ Word.count ≤ value

/-! ### Rules -/

/-- Whether a decision about two tokens reports no error, or one about the token that it is at. -/
def Decision.Blames (decision : Decision) (first second : Token) : Prop :=
  match decision with
  | fail 0 error => error.IsAbout first
  | fail 1 error => error.IsAbout second
  | fail _ _ => False
  | _ => True

/-- Whether the errors of an outcome are at tokens that they are about. -/
def Outcome.Blames (outcome : Outcome) (tokens : Nat → Token) : Prop :=
  ∀ fault ∈ outcome.errors,
    ∃ index, fault.location = (tokens index).location ∧ fault.error.IsAbout (tokens index)

namespace Rule

mutual

/-- Whether all primitives that a rule is made of report errors about the tokens that they are at. -/
def Blames : Rule → Prop
  | primitive _ decide => ∀ first second, (decide first second).Blames first second
  | all rules => BlamesAll rules
  | any rules => BlamesAll rules
  | times rule _ _ => rule.Blames
  | commit rule => rule.Blames
  | subtree rule => rule.Blames
  | recover rule _ => rule.Blames
  | expecting rule _ => rule.Blames

/-- Whether all primitives that some rules are made of do. -/
def BlamesAll : List Rule → Prop
  | [] => True
  | rule :: rules => rule.Blames ∧ BlamesAll rules

end

/-- A sequence of rules blames the right tokens if each of its rules does. -/
theorem blamesAll_iff {rules : List Rule} : BlamesAll rules ↔ ∀ rule ∈ rules, rule.Blames := by
  induction rules with
  | nil => simp [BlamesAll]
  | cons rule rules ih => simp [BlamesAll, ih]

end Rule

namespace Outcome

variable {tokens : Nat → Token} {outcome first rest : Outcome} {start : Nat}

theorem errors_rewindRejected : (outcome.rewindRejected start).errors = outcome.errors := by
  unfold Outcome.rewindRejected
  split <;> rfl

theorem errors_gather : outcome.gather.errors = outcome.errors := by
  unfold Outcome.gather
  split <;> rfl

/-- What the errors are about depends on nothing else in an outcome. -/
theorem Blames.congr {other : Outcome} (h : outcome.Blames tokens)
    (herrors : other.errors = outcome.errors) : other.Blames tokens := by
  unfold Blames
  rw [herrors]
  exact h

/-- Without errors no token is blamed. -/
theorem blames_silent (h : outcome.errors = []) : outcome.Blames tokens := by
  unfold Blames
  rw [h]
  exact List.forall_mem_nil _

theorem Blames.append (hfirst : first.Blames tokens) (hrest : rest.Blames tokens) :
    (first.append rest).Blames tokens :=
  List.forall_mem_append.mpr ⟨hfirst, hrest⟩

/-- A rejection that becomes an error is about the token that has been found. -/
theorem Blames.insist (h : outcome.Blames tokens) (expected : String) (index : Nat) :
    (outcome.insist expected (tokens index)).Blames tokens := by
  unfold Outcome.insist
  split
  case h_1 =>
    exact List.forall_mem_append.mpr ⟨h, List.forall_mem_singleton.mpr ⟨index, rfl, rfl⟩⟩
  case h_2 => exact h

end Outcome

/-- A decision has its error at the token that it is about. -/
theorem Decision.Blames.outcome {decision : Decision} {tokens : Nat → Token} {start : Nat}
    (h : decision.Blames (tokens start) (tokens (start + 1))) :
    (decision.outcome tokens start).Blames tokens := by
  cases decision with
  | reject => exact Outcome.blames_silent rfl
  | accept taken nodes => exact Outcome.blames_silent rfl
  | fail skipped error =>
    refine List.forall_mem_singleton.mpr ⟨start + skipped, rfl, ?_⟩
    match skipped with
    | 0 => exact h
    | 1 => exact h
    | _ + 2 => exact h.elim

namespace Rule

variable {tokens : Nat → Token} {rule : Rule} {rules : List Rule} {budget start : Nat}
  {outcome : Outcome}

/-- Rounds blame the right tokens if a single round does. -/
private theorem blames_runTimes {step : Nat → Option Outcome}
    {exhausted : Nat → Nat → Option Outcome}
    (hstep : ∀ start outcome, step start = some outcome → outcome.Blames tokens)
    (hexhausted : ∀ needed start outcome, exhausted needed start = some outcome →
      outcome.errors = []) {limit needed : Nat}
    (h : runTimes step exhausted limit needed start = some outcome) : outcome.Blames tokens := by
  induction limit generalizing needed start outcome with
  | zero => exact Outcome.blames_silent (hexhausted _ _ _ h)
  | succ limit ih =>
    obtain ⟨first, hfirst, hcases⟩ := runTimes_succ_eq_some_iff.mp h
    have hblames := hstep _ _ hfirst
    -- a round is rejected, fails, or matches and comes in front of the others
    rcases hcases with ⟨-, rfl⟩ | ⟨-, rfl⟩ | ⟨-, rest, rfl, hrest⟩
    · exact hblames.congr rfl
    · exact hblames
    · refine (hblames.append ?_).congr Outcome.errors_rewindRejected
      split at hrest
      case isTrue =>
        rw [hrest]
        exact Outcome.blames_silent rfl
      case isFalse => exact ih hrest

/-- The rules of a sequence blame the right tokens if each does. -/
private theorem blames_runAll
    (hrules : ∀ rule ∈ rules, ∀ {start outcome},
      rule.run (.ofTokens tokens) budget start = some outcome → outcome.Blames tokens)
    (h : runAll (.ofTokens tokens) budget rules start = some outcome) :
    outcome.Blames tokens := by
  induction rules generalizing start outcome with
  | nil =>
    rw [runAll] at h
    obtain rfl := Option.some.inj h
    exact Outcome.blames_silent rfl
  | cons rule rules ih =>
    obtain ⟨hrule, hrules⟩ := List.forall_mem_cons.mp hrules
    obtain ⟨first, hfirst, ⟨-, rest, hrest, rfl⟩ | ⟨-, rfl⟩⟩ := runAll_cons_eq_some_iff.mp h
    · exact ((hrule hfirst).append (ih hrules hrest)).congr Outcome.errors_rewind
    · exact (hrule hfirst).congr Outcome.errors_rewind

/-- Alternatives blame the right tokens if each does. -/
private theorem blames_runAny
    (hrules : ∀ rule ∈ rules, ∀ {start outcome},
      rule.run (.ofTokens tokens) budget start = some outcome → outcome.Blames tokens)
    (h : runAny (.ofTokens tokens) budget rules start = some outcome) :
    outcome.Blames tokens := by
  induction rules generalizing outcome with
  | nil =>
    rw [runAny] at h
    obtain rfl := Option.some.inj h
    exact Outcome.blames_silent rfl
  | cons rule rules ih =>
    obtain ⟨hrule, hrules⟩ := List.forall_mem_cons.mp hrules
    obtain ⟨first, hfirst, ⟨-, rest, hrest, rfl⟩ | ⟨-, rfl⟩⟩ := runAny_cons_eq_some_iff.mp h
    · exact ((hrule hfirst).append (ih hrules hrest)).congr rfl
    · exact hrule hfirst

/-- **Errors are about the tokens they are at.** A rule whose primitives report such errors has no
    others: what is added to them is that something else was expected than the token that was
    found. -/
theorem Blames.blames_run (h : rule.Blames)
    (hrun : rule.run (.ofTokens tokens) budget start = some outcome) : outcome.Blames tokens := by
  induction rule using Rule.induct generalizing start outcome with
  | primitive expectation decide =>
    rw [run_primitive] at hrun
    obtain rfl := Option.some.inj hrun
    exact (h _ _).outcome
  | all rules ih =>
    rw [run] at hrun
    exact blames_runAll (fun rule hrule => ih rule hrule (blamesAll_iff.mp h rule hrule)) hrun
  | any rules ih =>
    rw [run] at hrun
    exact blames_runAny (fun rule hrule => ih rule hrule (blamesAll_iff.mp h rule hrule)) hrun
  | times rule least most? ih =>
    have hstep := fun start outcome => @ih start outcome h
    -- without a limit the rounds never run out, and with one they end in silence
    cases most? with
    | none =>
      rw [run] at hrun
      refine blames_runTimes hstep ?_ hrun
      intro needed start outcome h
      cases h
    | some most =>
      rw [run] at hrun
      refine blames_runTimes hstep ?_ hrun
      intro needed start outcome h
      obtain rfl := Option.some.inj h
      rfl
  | commit rule ih =>
    rw [run_commit] at hrun
    obtain ⟨first, hfirst, rfl⟩ := Option.map_eq_some_iff.mp hrun
    -- a commit adds an error at the token where the rule began
    exact (ih h hfirst).insist _ _
  | subtree rule ih =>
    rw [run_subtree] at hrun
    obtain ⟨first, hfirst, rfl⟩ := Option.map_eq_some_iff.mp hrun
    exact (ih h hfirst).congr Outcome.errors_gather
  | recover rule sync ih =>
    obtain ⟨first, hfirst, ⟨-, position, -, rfl⟩ | ⟨-, rfl⟩⟩ := run_recover_eq_some_iff.mp hrun
    · -- tokens are skipped without a word
      exact (ih h hfirst).congr rfl
    · exact ih h hfirst
  | expecting rule expectation ih =>
    rw [run] at hrun
    exact ih h hrun

end Rule

/-! ### The rules of a source -/

namespace Line

/-- Another kind of token is rejected without an error. -/
private theorem blames_atom (kind : TokenKind) : (Rule.atom kind).Blames := by
  intro first second
  dsimp only
  split <;> trivial

/-- A token that cannot be read as an operand is rejected without an error. -/
private theorem blames_operand (expectation : String) (kind : TokenKind)
    (read : String → Option Node.Kind) : (Rule.operand expectation kind read).Blames := by
  intro first second
  dsimp only
  split
  case isTrue => cases read first.text <;> trivial
  case isFalse => trivial

/-- A token that is no label is rejected without an error. -/
private theorem blames_label : label.Blames := by
  intro word next
  dsimp only
  repeat' split
  all_goals trivial

/-- Of the words where an instruction should be, those are blamed that are no keyword or repeat a
    flag. -/
private theorem blames_mnemonic : mnemonic.Blames := by
  intro word next
  dsimp only
  split
  case isTrue => trivial
  case isFalse hword =>
    have hkind := not_not.mp hword
    cases hlookup : Keyword.lookup word.text with
    | instruction => trivial
    | repeatedFlag letter => exact ⟨hkind, hlookup⟩
    | unknown => exact ⟨hkind, rfl, hlookup⟩

/-- The token behind a period is blamed unless it is the name of a directive. -/
private theorem blames_directiveName : directiveName.Blames := by
  intro word next
  dsimp only
  split
  case isTrue => exact rfl
  case isFalse hword =>
    cases hname : Directive.ofName? word.text with
    | none => exact ⟨not_not.mp hword, rfl, hname⟩
    | some => trivial

/-- A hexadecimal literal is blamed for being too large. -/
private theorem blames_hexNumber : hexNumber.Blames := by
  intro word next
  dsimp only
  split
  case isTrue => trivial
  case isFalse hword =>
    cases hvalue : (hexDigits? word.text.toList).bind Text.hexValue? with
    | none => trivial
    | some value =>
      dsimp only
      split
      case isTrue => trivial
      case isFalse hlarge =>
        exact .inr ⟨not_not.mp hword, value, hexValue_eq_some_iff.mp hvalue, Nat.not_lt.mp hlarge⟩

/-- Digits are read with one of two errors, if with any. -/
private theorem DecimalReading.error_cases {high : Nat} {text : List Char} {error : SyntaxError}
    (h : DecimalReading high text (.error error)) :
    error = .invalidNumber ∨ error = .numberTooLarge := by
  cases h with
  | stray => exact .inl rfl
  | tooLarge => exact .inr rfl

/-- Digits that cannot be read are to blame, wherever they are found. -/
private theorem decimalDigits_eq_fail {skipped skipped' : Nat} {digits : Token}
    {sign : Word → Word} {error : SyntaxError}
    (h : decimalDigits skipped digits sign = .fail skipped' error) :
    skipped' = skipped ∧ error.IsAbout digits := by
  unfold decimalDigits at h
  split at h
  case isTrue => cases h
  case isFalse hnumber =>
    have hkind := not_not.mp hnumber
    split at h
    case h_1 => cases h
    case h_2 error' hvalue =>
      obtain ⟨rfl, rfl⟩ := Decision.fail.inj h
      have hreading := (decimalValueFrom_eq_iff (by decide)).mp hvalue
      refine ⟨rfl, ?_⟩
      rcases hreading.error_cases with rfl | rfl
      · exact ⟨hkind, hreading⟩
      · exact .inl ⟨hkind, hreading⟩

/-- The digits of a decimal literal are blamed, behind a sign or without one. -/
private theorem blames_decimalNumber : decimalNumber.Blames := by
  intro first second
  dsimp only
  split
  case isTrue =>
    cases hdecision : decimalDigits 1 second (- ·) with
    | reject | accept => trivial
    | fail skipped error =>
      obtain ⟨rfl, habout⟩ := decimalDigits_eq_fail hdecision
      exact habout
  case isFalse =>
    cases hdecision : decimalDigits 0 first id with
    | reject | accept => trivial
    | fail skipped error =>
      obtain ⟨rfl, habout⟩ := decimalDigits_eq_fail hdecision
      exact habout

/-- A token in front of the end of the line is rejected without an error. -/
private theorem blames_lineEnd : lineEnd.Blames := by
  intro token next
  dsimp only
  split <;> trivial

/-- **The errors of a source are about the tokens they are at.** -/
theorem blames_document : document.Blames := by
  simp [document, line, directive, instruction, directiveOperand, instructionOperand, register,
    labelReference, string, number, Rule.maybe, Rule.many, Rule.Blames, Rule.BlamesAll, blames_atom,
    blames_operand, blames_label, blames_mnemonic, blames_directiveName, blames_hexNumber,
    blames_decimalNumber, blames_lineEnd]

end Line

/-! ### Tokens and their places -/

namespace Lexer

/-- A lexer only goes forward, and a token in front of the end takes something. -/
theorem offset_next (lexer : Lexer) :
    lexer.location.offset ≤ lexer.next.1.location.offset ∧
      lexer.next.1.location.offset ≤ lexer.next.2.location.offset ∧
      (lexer.next.1 = endToken lexer.next.1.location ∧ lexer.next.2.finished = true ∨
        lexer.next.1.location.offset < lexer.next.2.location.offset) := by
  cases hfinished : lexer.finished with
  | true =>
    -- behind the end there are only ends at the same place
    rw [next_of_finished hfinished]
    exact ⟨Nat.le_refl _, Nat.le_refl _, .inl ⟨rfl, hfinished⟩⟩
  | false =>
    have hfinds := finds_next hfinished
    generalize lexer.next = result at hfinds ⊢
    cases hfinds with
    | finish _ _ _ hlocation =>
      rw [hlocation]
      exact ⟨Nat.le_add_right _ _, Nat.le_add_right _ _, .inl ⟨rfl, rfl⟩⟩
    | @token kind gap raw text rest location _ _ hspelled hlocation =>
      -- a token has text, and its text takes bytes
      have hraw := Text.byteLength_pos hspelled.ne_nil
      have hbehind : location.offset <
          (if kind = .linebreak then location.nextLine
            else location.shifted (Text.byteLength raw)).offset := by
        split
        · exact Nat.lt_succ_self _
        · exact Nat.lt_add_of_pos_right hraw
      refine ⟨?_, Nat.le_of_lt hbehind, .inr hbehind⟩
      rw [hlocation]
      exact Nat.le_add_right _ _

/-- No token starts in front of the place of its lexer. -/
theorem offset_le_nth (lexer : Lexer) (n : Nat) :
    lexer.location.offset ≤ (lexer.nth n).location.offset := by
  obtain ⟨hgap, htoken, -⟩ := offset_next lexer
  induction n generalizing lexer with
  | zero => exact hgap
  | succ n ih =>
    obtain ⟨hgap', htoken', -⟩ := offset_next lexer.next.2
    exact Nat.le_trans (Nat.le_trans hgap htoken) (ih lexer.next.2 hgap' htoken')

/-- A later token at the place of the next one is the same: both end the source. -/
private theorem next_eq_of_location_eq {lexer : Lexer} {n : Nat}
    (h : lexer.next.1.location = (lexer.nth (n + 1)).location) :
    lexer.next.1 = lexer.nth (n + 1) := by
  obtain ⟨-, -, ⟨hend, hfinished⟩ | hbehind⟩ := offset_next lexer
  · have hlater : lexer.nth (n + 1) = endToken lexer.next.2.location := nth_of_finished hfinished n
    rw [hlater] at h ⊢
    rw [hend, h]
    rfl
  · have hlater : lexer.next.2.location.offset ≤ (lexer.nth (n + 1)).location.offset :=
      offset_le_nth lexer.next.2 n
    rw [← h] at hlater
    exact absurd hbehind (Nat.not_lt.mpr hlater)

/-- **Tokens at the same place are the same.** -/
theorem nth_eq_of_location_eq {lexer : Lexer} {m n : Nat}
    (h : (lexer.nth m).location = (lexer.nth n).location) : lexer.nth m = lexer.nth n := by
  induction m generalizing lexer n with
  | zero =>
    cases n with
    | zero => rfl
    | succ n => exact next_eq_of_location_eq h
  | succ m ih =>
    cases n with
    | zero => exact (next_eq_of_location_eq h.symm).symm
    | succ n => exact ih h

end Lexer

/-- **Syntax errors are about tokens of their source**, and at their places. -/
theorem Context.blames_of_apply {source : String} {context : Context}
    (happly : (Context.ofSource source).apply Line.document = .ok (.matched, context))
    (hreads : context.ReadsLines source) :
    ∀ fault ∈ context.errors, ∃ token ∈ (Lexer.ofSource source).tokens.1,
      fault.location = token.location ∧ fault.error.IsAbout token := by
  obtain ⟨outcome, hrun, -, hafter⟩ :=
    exists_run_of_apply (Buffer.holds_ofSource source) happly
  have hblames := Line.blames_document.blames_run hrun
  intro fault hfault
  obtain ⟨token, hmem, hplace⟩ := hreads.exists_token fault hfault
  rw [hafter.errors] at hfault
  obtain ⟨index, hlocation, habout⟩ := hblames fault hfault
  -- the token that the error is about is the one of the line
  obtain ⟨n, rfl⟩ := (Lexer.spells_take (Lexer.ofSource source) _).exists_of_mem hmem
  rw [Lexer.nth_eq_of_location_eq (hlocation.symm.trans hplace)] at habout
  exact ⟨_, hmem, hplace, habout⟩

end LC3
