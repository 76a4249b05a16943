import LC3.Proofs.Grammar
import LC3.Proofs.Matching

namespace LC3

/-!
# Which operands are read

The rules of operands match exactly what the grammar calls an operand. An operand is read alone:
whether it is there and where it ends depends on its own tokens only.

* `Line.run_number_eq_success_iff`, `Line.run_directiveOperand_eq_success_iff`,
  `Line.run_instructionOperand_eq_success_iff` — operands.
-/

namespace Grammar

variable {tokens : Nat → Token} {start : Nat}

/-- A decimal number starts with a minus or with its digits. -/
theorem Decimal.kind_first {spelling : List Token} {nodes : List Node}
    (h : Decimal spelling nodes) (hspells : Spells tokens start spelling) :
    (tokens start).kind = .minus ∨ (tokens start).kind = .number := by
  cases h with
  | plain hkind => exact .inr (hspells.1 ▸ hkind)
  | negative hminus => exact .inl (hspells.1 ▸ hminus)

/-- A number that starts with a word is that word. -/
theorem Number.isHexForm_first {spelling : List Token} {nodes : List Node}
    (h : Number spelling nodes) (hspells : Spells tokens start spelling)
    (hkind : (tokens start).kind = .word) : IsHexForm (tokens start).text := by
  cases h with
  | hex _ hvalue =>
    obtain rfl := spells_singleton_iff.mp hspells
    exact ⟨_, hvalue⟩
  | decimal hpound hdecimal =>
    cases hpound with
    | none => rcases hdecimal.kind_first hspells with h | h <;> simp [h] at hkind
    | some hpound =>
      rw [hspells.1, hpound] at hkind
      cases hkind

/-- No register has the form of a hexadecimal number. -/
theorem IsHexForm.register_eq_none {word : String} (h : IsHexForm word) :
    Register.ofName? word = none := by
  obtain ⟨value, letter, digits, hword, hletter, -⟩ := h
  unfold Register.ofName?
  rw [hword]
  split
  case h_2 => rfl
  case h_1 letter' digit hlist =>
    obtain ⟨rfl, -⟩ := List.cons.inj hlist
    rw [if_neg]
    rintro ⟨hupper, -⟩
    rcases hletter with rfl | rfl <;> revert hupper <;> decide

end Grammar

namespace Line

open Outcome (success refusal)
open Grammar

variable {tokens : Nat → Token} {budget start position : Nat} {nodes : List Node}

/-! ### Single tokens -/

/-- A token of a kind is read if it is there, and leaves no node. -/
theorem run_atom_eq_success_iff {kind : TokenKind} :
    (Rule.atom kind).run (.ofTokens tokens) budget start = some (success position nodes) ↔
      (tokens start).kind = kind ∧ position = start + 1 ∧ nodes = [] := by
  rw [Rule.atom, Rule.run_primitive_eq_success_iff]
  by_cases h : (tokens start).kind = kind
  · simp [h, and_comm, eq_comm]
  · simp [h]

theorem run_atom_eq_refusal {kind : TokenKind} (h : (tokens start).kind ≠ kind) :
    (Rule.atom kind).run (.ofTokens tokens) budget start = some (refusal start) := by
  rw [Rule.atom, Rule.run_primitive_eq_refusal_iff, if_neg h]

/-- An operand of one token is read if the token has a payload. -/
theorem run_operand_eq_success_iff {expectation : String} {kind : TokenKind}
    {read : String → Option Node.Kind} :
    (Rule.operand expectation kind read).run (.ofTokens tokens) budget start =
        some (success position nodes) ↔
      (tokens start).kind = kind ∧ ∃ payload, read (tokens start).text = some payload ∧
        position = start + 1 ∧ nodes = [.leaf payload (tokens start)] := by
  rw [Rule.operand, Rule.run_primitive_eq_success_iff]
  by_cases h : (tokens start).kind = kind
  · cases read (tokens start).text with
    | none => simp [h]
    | some payload => simp [h, and_comm, eq_comm]
  · simp [h]

/-- An operand of one token is rejected if the token has no payload. -/
theorem run_operand_eq_refusal_iff {expectation : String} {kind : TokenKind}
    {read : String → Option Node.Kind} :
    (Rule.operand expectation kind read).run (.ofTokens tokens) budget start =
        some (refusal start) ↔
      ((tokens start).kind = kind → read (tokens start).text = none) := by
  rw [Rule.operand, Rule.run_primitive_eq_refusal_iff]
  by_cases h : (tokens start).kind = kind
  · cases read (tokens start).text <;> simp [h]
  · simp [h]

/-! ### Numbers -/

/-- A hexadecimal number is a word of its form that fits. -/
theorem run_hexNumber_eq_success_iff :
    hexNumber.run (.ofTokens tokens) budget start = some (success position nodes) ↔
      ∃ value, (tokens start).kind = .word ∧ HexNumber (tokens start).text value ∧
        value < Word.count ∧ position = start + 1 ∧
        nodes = [.leaf (.number (BitVec.ofNat 16 value)) (tokens start)] := by
  rw [hexNumber, Rule.run_primitive_eq_success_iff]
  by_cases hkind : (tokens start).kind = .word
  · -- the digits have no value, or one that fits a word or not
    cases hvalue : (hexDigits? (tokens start).text.toList).bind Text.hexValue? with
    | none => simp [hkind, ← hexValue_eq_some_iff, hvalue]
    | some value =>
      by_cases hfits : value < Word.count <;>
        simp [hkind, ← hexValue_eq_some_iff, hvalue, hfits, and_comm, eq_comm]
  · simp [hkind]

/-- A hexadecimal number is rejected only if the token has another form. -/
theorem run_hexNumber_eq_refusal_iff :
    hexNumber.run (.ofTokens tokens) budget start = some (refusal start) ↔
      ((tokens start).kind = .word → ¬ IsHexForm (tokens start).text) := by
  rw [hexNumber, Rule.run_primitive_eq_refusal_iff]
  by_cases hkind : (tokens start).kind = .word
  · cases hvalue : (hexDigits? (tokens start).text.toList).bind Text.hexValue? with
    | none => simp [hkind, IsHexForm, ← hexValue_eq_some_iff, hvalue]
    | some value =>
      by_cases hfits : value < Word.count <;>
        simp [hkind, IsHexForm, ← hexValue_eq_some_iff, hvalue, hfits]
  · simp [hkind]

/-- Digits are accepted if their value fits a word, and are made a word with their sign. -/
private theorem decimalDigits_eq_accept_iff {skipped taken : Nat} {digits : Token}
    {sign : Word → Word} :
    decimalDigits skipped digits sign = .accept taken nodes ↔
      digits.kind = .number ∧ ∃ value, DecimalNumber digits.text value ∧ value < Word.count ∧
        taken = skipped + 1 ∧ nodes = [.leaf (.number (sign (BitVec.ofNat 16 value))) digits] := by
  unfold decimalDigits
  by_cases hkind : digits.kind = .number
  · have hvalue : ∀ value, decimalValueFrom 0 digits.text.toList = .ok value ↔
        DecimalNumber digits.text value ∧ value < Word.count :=
      fun _ => decimalValueFrom_eq_ok_iff (by decide)
    rw [if_neg (not_not_intro hkind)]
    cases hread : decimalValueFrom 0 digits.text.toList with
    | error error =>
      have hnone : ∀ value, DecimalNumber digits.text value → ¬ value < Word.count := by
        intro value hvalue' hfits
        have hread' := (hvalue value).mpr ⟨hvalue', hfits⟩
        rw [hread] at hread'
        cases hread'
      constructor
      · intro h
        cases h
      · rintro ⟨-, value, hvalue', hfits, -⟩
        exact absurd hfits (hnone value hvalue')
    | ok value =>
      constructor
      · intro h
        obtain ⟨rfl, rfl⟩ := Decision.accept.inj h
        obtain ⟨hvalue', hfits⟩ := (hvalue value).mp hread
        exact ⟨hkind, value, hvalue', hfits, rfl, rfl⟩
      · rintro ⟨-, value', hvalue', hfits, rfl, rfl⟩
        -- digits have no other value than the one that is read
        have hread' := (hvalue value').mpr ⟨hvalue', hfits⟩
        obtain rfl := Except.ok.inj (hread.symm.trans hread')
        rfl
  · simp [hkind]

/-- Only a token of another kind is rejected. -/
private theorem decimalDigits_eq_reject_iff {skipped : Nat} {digits : Token}
    {sign : Word → Word} :
    decimalDigits skipped digits sign = .reject ↔ digits.kind ≠ .number := by
  unfold decimalDigits
  by_cases hkind : digits.kind = .number
  · rw [if_neg (not_not_intro hkind)]
    cases decimalValueFrom 0 digits.text.toList <;> simp [hkind]
  · simp [hkind]

/-- A decimal number is read where the grammar has one. -/
theorem run_decimalNumber_eq_success_iff :
    decimalNumber.run (.ofTokens tokens) budget start = some (success position nodes) ↔
      Spans Decimal tokens start position nodes := by
  rw [decimalNumber, Rule.run_primitive_eq_success_iff]
  constructor
  · rintro ⟨taken, hdecision, rfl⟩
    split at hdecision
    case isTrue hminus =>
      obtain ⟨hkind, value, hvalue, hfits, rfl, rfl⟩ := decimalDigits_eq_accept_iff.mp hdecision
      exact ⟨_, .negative hminus hkind hvalue hfits, ⟨rfl, rfl, trivial⟩, rfl⟩
    case isFalse =>
      obtain ⟨hkind, value, hvalue, hfits, rfl, rfl⟩ := decimalDigits_eq_accept_iff.mp hdecision
      exact ⟨_, .plain hkind hvalue hfits, ⟨rfl, trivial⟩, rfl⟩
  · rintro ⟨spelling, hdecimal, hspells, rfl⟩
    cases hdecimal with
    | @plain digits value hkind hvalue hfits =>
      obtain rfl := spells_singleton_iff.mp hspells
      refine ⟨1, ?_, rfl⟩
      rw [if_neg (by rw [hkind]; decide)]
      exact decimalDigits_eq_accept_iff.mpr ⟨hkind, value, hvalue, hfits, rfl, rfl⟩
    | @negative minus digits value hminus hkind hvalue hfits =>
      obtain ⟨rfl, rfl, -⟩ := hspells
      refine ⟨2, ?_, rfl⟩
      rw [if_pos hminus]
      exact decimalDigits_eq_accept_iff.mpr ⟨hkind, value, hvalue, hfits, rfl, rfl⟩

/-- A place where no decimal number starts. -/
theorem run_decimalNumber_eq_refusal (hminus : (tokens start).kind ≠ .minus)
    (hnumber : (tokens start).kind ≠ .number) :
    decimalNumber.run (.ofTokens tokens) budget start = some (refusal start) := by
  rw [decimalNumber, Rule.run_primitive_eq_refusal_iff, if_neg hminus]
  exact decimalDigits_eq_reject_iff.mpr hnumber

/-- The alternatives of a number. -/
theorem run_number :
    number.run (.ofTokens tokens) budget start =
      Rule.runAny (.ofTokens tokens) budget
        [hexNumber, .all [.atom .pound, .commit decimalNumber], decimalNumber] start := by
  rw [number, Rule.run_expecting, Rule.run]

/-- A decimal number behind a pound sign. -/
private theorem run_pound_eq_success_iff :
    (Rule.all [.atom .pound, .commit decimalNumber]).run (.ofTokens tokens) budget start =
        some (success position nodes) ↔
      (tokens start).kind = .pound ∧
        decimalNumber.run (.ofTokens tokens) budget (start + 1) =
          some (success position nodes) := by
  rw [Rule.run_pair_eq_success_iff]
  constructor
  · rintro ⟨middle, before, behind, hpound, hdecimal, rfl⟩
    obtain ⟨hkind, rfl, rfl⟩ := run_atom_eq_success_iff.mp hpound
    rw [List.nil_append]
    exact ⟨hkind, Rule.run_commit_eq_success_iff.mp hdecimal⟩
  · rintro ⟨hkind, hdecimal⟩
    exact ⟨start + 1, [], nodes, run_atom_eq_success_iff.mpr ⟨hkind, rfl, rfl⟩,
      Rule.run_commit_eq_success_iff.mpr hdecimal, rfl⟩

/-- Without a pound sign, nothing is read behind one. -/
private theorem run_pound_eq_refusal (h : (tokens start).kind ≠ .pound) :
    (Rule.all [.atom .pound, .commit decimalNumber]).run (.ofTokens tokens) budget start =
      some (refusal start) := by
  rw [Rule.run]
  exact Rule.runAll_cons_eq_refusal (run_atom_eq_refusal h)

/-- **Numbers.** The rule of numbers matches what the grammar calls a number. -/
theorem run_number_eq_success_iff :
    number.run (.ofTokens tokens) budget start = some (success position nodes) ↔
      Spans Number tokens start position nodes := by
  rw [run_number, Rule.runAny_cons_eq_success_iff, Rule.runAny_cons_eq_success_iff,
    Rule.runAny_cons_eq_success_iff, run_hexNumber_eq_success_iff, run_pound_eq_success_iff,
    run_decimalNumber_eq_success_iff, run_decimalNumber_eq_success_iff]
  constructor
  · rintro (⟨value, hkind, hvalue, hfits, rfl, rfl⟩ | ⟨-, ⟨hkind, spelling, h, hspells, rfl⟩ |
      ⟨-, ⟨spelling, h, hspells, rfl⟩ | ⟨-, h⟩⟩⟩)
    · exact ⟨_, .hex hkind hvalue hfits, ⟨rfl, trivial⟩, rfl⟩
    · -- a decimal number behind a pound sign
      refine ⟨_, .decimal (.some hkind) h, ⟨rfl, hspells⟩, ?_⟩
      exact add_length_cons.symm
    · -- a decimal number without one
      exact ⟨_, .decimal .none h, hspells, rfl⟩
    · rw [Rule.runAny_nil] at h
      cases h
  · rintro ⟨spelling, hnumber, hspells, rfl⟩
    cases hnumber with
    | hex hkind hvalue hfits =>
      obtain rfl := spells_singleton_iff.mp hspells
      exact .inl ⟨_, hkind, hvalue, hfits, rfl, rfl⟩
    | @decimal pound spelling nodes hpound h =>
      -- neither a pound nor the first token of a decimal number is a word
      have hhex : (tokens start).kind ≠ .word →
          hexNumber.run (.ofTokens tokens) budget start = some (refusal start) :=
        fun hkind => run_hexNumber_eq_refusal_iff.mpr fun hword => absurd hword hkind
      cases hpound with
      | none =>
        have hfirst := h.kind_first hspells
        refine .inr ⟨hhex ?_, .inr ⟨run_pound_eq_refusal ?_, .inl ⟨_, h, hspells, rfl⟩⟩⟩ <;>
          rcases hfirst with hfirst | hfirst <;> rw [hfirst] <;> decide
      | @some pound hkind =>
        obtain ⟨rfl, hspells⟩ := hspells
        refine .inr ⟨hhex (by rw [hkind]; decide), .inl ⟨hkind, spelling, h, hspells, ?_⟩⟩
        exact add_length_cons

/-- A place where no number starts. A word may stand there, and then as little else as a number may
    come of it. -/
theorem run_number_eq_refusal
    (hform : (tokens start).kind = .word → ¬ IsHexForm (tokens start).text)
    (hkind : (tokens start).kind ∉ [.pound, .minus, .number]) :
    number.run (.ofTokens tokens) budget start = some (refusal start) := by
  simp only [List.mem_cons, List.not_mem_nil, or_false, not_or] at hkind
  obtain ⟨hpound, hminus, hnumber⟩ := hkind
  rw [run_number]
  exact Rule.runAny_cons_eq_refusal_iff.mpr ⟨run_hexNumber_eq_refusal_iff.mpr hform,
    Rule.runAny_cons_eq_refusal_iff.mpr ⟨run_pound_eq_refusal hpound,
      Rule.runAny_cons_eq_refusal_iff.mpr
        ⟨run_decimalNumber_eq_refusal hminus hnumber, Rule.runAny_nil⟩⟩⟩

/-- A word of the form of a hexadecimal number is never left to the alternatives of a number. -/
theorem not_isHexForm_of_run_number
    (h : number.run (.ofTokens tokens) budget start = some (refusal start))
    (hkind : (tokens start).kind = .word) : ¬ IsHexForm (tokens start).text := by
  rw [run_number] at h
  exact run_hexNumber_eq_refusal_iff.mp (Rule.runAny_cons_eq_refusal_iff.mp h).1 hkind

/-! ### Operands of statements -/

/-- Any word is a reference to a label, if it is not read as something else before. -/
private theorem run_labelReference_eq_success_iff :
    labelReference.run (.ofTokens tokens) budget start = some (success position nodes) ↔
      (tokens start).kind = .word ∧ position = start + 1 ∧
        nodes = [.leaf .labelReference (tokens start)] := by
  rw [labelReference, run_operand_eq_success_iff]
  simp

/-- A string is a token of its own, from which escapes are resolved. -/
private theorem run_string_eq_success_iff :
    string.run (.ofTokens tokens) budget start = some (success position nodes) ↔
      (tokens start).kind = .string ∧ position = start + 1 ∧
        nodes = [.leaf (.string (String.ofList (Text.unescape (tokens start).text.toList)))
          (tokens start)] := by
  rw [string, run_operand_eq_success_iff]
  simp

/-- A register is a word with the name of one. -/
private theorem run_register_eq_success_iff :
    register.run (.ofTokens tokens) budget start = some (success position nodes) ↔
      (tokens start).kind = .word ∧ ∃ found, Register.ofName? (tokens start).text = some found ∧
        position = start + 1 ∧ nodes = [.leaf (.register found) (tokens start)] := by
  rw [register, run_operand_eq_success_iff]
  simp

/-- Only a word without the name of a register is rejected. -/
private theorem run_register_eq_refusal_iff :
    register.run (.ofTokens tokens) budget start = some (refusal start) ↔
      ((tokens start).kind = .word → Register.ofName? (tokens start).text = none) := by
  rw [register, run_operand_eq_refusal_iff]
  simp

/-- **Operands of directives.** Their rule matches what the grammar calls an operand. -/
theorem run_directiveOperand_eq_success_iff :
    directiveOperand.run (.ofTokens tokens) budget start = some (success position nodes) ↔
      Spans DirectiveOperand tokens start position nodes := by
  rw [directiveOperand, Rule.run, Rule.runAny_cons_eq_success_iff, Rule.runAny_cons_eq_success_iff,
    Rule.runAny_cons_eq_success_iff, run_number_eq_success_iff, run_labelReference_eq_success_iff,
    run_string_eq_success_iff]
  constructor
  · rintro (⟨spelling, h, hspells, rfl⟩ | ⟨hnumber, ⟨hkind, rfl, rfl⟩ |
      ⟨-, ⟨hkind, rfl, rfl⟩ | ⟨-, h⟩⟩⟩)
    · exact ⟨spelling, .number h, hspells, rfl⟩
    · -- a word that is a label has not been read as a number
      exact ⟨_, .label hkind (not_isHexForm_of_run_number hnumber hkind), ⟨rfl, trivial⟩, rfl⟩
    · exact ⟨_, .string hkind, ⟨rfl, trivial⟩, rfl⟩
    · rw [Rule.runAny_nil] at h
      cases h
  · rintro ⟨spelling, hoperand, hspells, rfl⟩
    cases hoperand with
    | number h => exact .inl ⟨spelling, h, hspells, rfl⟩
    | label hkind hform =>
      -- no number starts with a word of another form, so the word is left for the label
      obtain rfl := spells_singleton_iff.mp hspells
      have hnumber : number.run (.ofTokens tokens) budget start = some (refusal start) :=
        run_number_eq_refusal (fun _ => hform) (by rw [hkind]; decide)
      exact .inr ⟨hnumber, .inl ⟨hkind, rfl, rfl⟩⟩
    | string hkind =>
      obtain rfl := spells_singleton_iff.mp hspells
      have hword : (tokens start).kind ≠ .word := by simp [hkind]
      have hnumber : number.run (.ofTokens tokens) budget start = some (refusal start) :=
        run_number_eq_refusal (fun h => absurd h hword) (by rw [hkind]; decide)
      have hlabel : labelReference.run (.ofTokens tokens) budget start =
          some (refusal start) := by
        rw [labelReference, run_operand_eq_refusal_iff]
        intro h
        exact absurd h hword
      exact .inr ⟨hnumber, .inr ⟨hlabel, .inl ⟨hkind, rfl, rfl⟩⟩⟩

/-- **Operands of instructions.** Their rule matches what the grammar calls an operand. -/
theorem run_instructionOperand_eq_success_iff :
    instructionOperand.run (.ofTokens tokens) budget start = some (success position nodes) ↔
      Spans InstructionOperand tokens start position nodes := by
  rw [instructionOperand, Rule.run, Rule.runAny_cons_eq_success_iff,
    Rule.runAny_cons_eq_success_iff, Rule.runAny_cons_eq_success_iff,
    run_register_eq_success_iff, run_number_eq_success_iff, run_labelReference_eq_success_iff]
  constructor
  · rintro (⟨hkind, found, hname, rfl, rfl⟩ | ⟨hregister, ⟨spelling, h, hspells, rfl⟩ |
      ⟨hnumber, ⟨hkind, rfl, rfl⟩ | ⟨-, h⟩⟩⟩)
    · exact ⟨_, .register hkind hname, ⟨rfl, trivial⟩, rfl⟩
    · exact ⟨spelling, .number h, hspells, rfl⟩
    · -- a word that is a label is neither a register nor a number
      exact ⟨_, .label hkind (run_register_eq_refusal_iff.mp hregister hkind)
        (not_isHexForm_of_run_number hnumber hkind), ⟨rfl, trivial⟩, rfl⟩
    · rw [Rule.runAny_nil] at h
      cases h
  · rintro ⟨spelling, hoperand, hspells, rfl⟩
    cases hoperand with
    | register hkind hname =>
      obtain rfl := spells_singleton_iff.mp hspells
      exact .inl ⟨hkind, _, hname, rfl, rfl⟩
    | number h =>
      -- a number that starts with a word has the form of a hexadecimal number
      have hregister : register.run (.ofTokens tokens) budget start = some (refusal start) := by
        refine run_register_eq_refusal_iff.mpr ?_
        intro hkind
        exact (h.isHexForm_first hspells hkind).register_eq_none
      exact .inr ⟨hregister, .inl ⟨spelling, h, hspells, rfl⟩⟩
    | label hkind hname hform =>
      -- the two alternatives in front have to reject the word
      obtain rfl := spells_singleton_iff.mp hspells
      have hregister : register.run (.ofTokens tokens) budget start = some (refusal start) :=
        run_register_eq_refusal_iff.mpr fun _ => hname
      have hnumber : number.run (.ofTokens tokens) budget start = some (refusal start) :=
        run_number_eq_refusal (fun _ => hform) (by rw [hkind]; decide)
      exact .inr ⟨hregister, .inr ⟨hnumber, .inl ⟨hkind, rfl, rfl⟩⟩⟩

end Line

end LC3
