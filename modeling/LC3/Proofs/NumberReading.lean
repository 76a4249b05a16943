import LC3.Proofs.Operands
import LC3.Proofs.Reading

namespace LC3

/-!
# How numbers are read

What comes of looking for a number at some place, whatever stands there: a number with its value, an
error, or nothing. Decimal digits are read from the left, so a number whose first digits are too
much for a word is too large, and no character behind them is looked at; only if these digits fit is
another character behind them an error of its own.

* `Line.DecimalReading` — what the digits of a decimal number mean.
* `Line.DecimalAt`, `Line.NumberAt` — what is found at some place.
* `Line.run_number_eq_some_iff` — the rule of numbers finds exactly this.
* `Context.Reads.apply_number` — the same in a context of a source.
-/

namespace Line

open Text (Numeral digitValue?)

/-! ### Digits -/

/-- What is read from a text of decimal digits that follow digits worth `high`. -/
inductive DecimalReading (high : Nat) : List Char → Except SyntaxError Nat → Prop where
  /-- Digits alone, with a value that fits a word. -/
  | fits {text : List Char} {value : Nat} (hvalue : Numeral 10 digitValue? high text value)
    (hfits : value < Word.count) : DecimalReading high text (.ok value)
  /-- Digits that fit a word, and something else behind them. -/
  | stray {digits text : List Char} {c : Char} {value : Nat}
    (hdigits : Numeral 10 digitValue? high digits value) (hfits : value < Word.count)
    (hc : digitValue? c = none) : DecimalReading high (digits ++ c :: text) (.error .invalidNumber)
  /-- Digits that do not fit a word, and anything behind them. -/
  | tooLarge {digits text : List Char} {value : Nat}
    (hdigits : Numeral 10 digitValue? high digits value) (hlarge : Word.count ≤ value) :
    DecimalReading high (digits ++ text) (.error .numberTooLarge)

/-- The same text with a digit in front. -/
private theorem DecimalReading.cons {high digit : Nat} {c : Char} {text : List Char}
    {result : Except SyntaxError Nat} (hc : digitValue? c = some digit)
    (h : DecimalReading (high * 10 + digit) text result) :
    DecimalReading high (c :: text) result := by
  have hmore : ∀ {digits value}, Numeral 10 digitValue? (high * 10 + digit) digits value →
      Numeral 10 digitValue? high (c :: digits) value :=
    fun hdigits => Text.numeral_cons_iff.mpr ⟨digit, hc, hdigits⟩
  cases h with
  | fits hvalue hfits => exact .fits (hmore hvalue) hfits
  | stray hdigits hfits hstray => exact .stray (hmore hdigits) hfits hstray
  | tooLarge hdigits hlarge => exact .tooLarge (hmore hdigits) hlarge

/-- Some reading is made of every text. -/
private theorem decimalReading_decimalValueFrom {high : Nat} (text : List Char)
    (hhigh : high < Word.count) : DecimalReading high text (decimalValueFrom high text) := by
  induction text generalizing high with
  | nil => exact .fits (Text.numeral_nil_iff.mpr rfl) hhigh
  | cons c text ih =>
    rw [decimalValueFrom]
    cases hdigit : digitValue? c with
    | none =>
      have hnone : Numeral 10 digitValue? high [] high := Text.numeral_nil_iff.mpr rfl
      exact @DecimalReading.stray high [] text c high hnone hhigh hdigit
    | some digit =>
      dsimp only
      split
      case isTrue hfits => exact .cons hdigit (ih hfits)
      case isFalse hlarge =>
        have hvalue : Numeral 10 digitValue? high [c] (high * 10 + digit) :=
          Text.numeral_cons_iff.mpr ⟨digit, hdigit, Text.numeral_nil_iff.mpr rfl⟩
        exact @DecimalReading.tooLarge high [c] text _ hvalue (Nat.le_of_not_lt hlarge)

/-- Digits in front of a text are read first, if they fit a word. -/
private theorem decimalValueFrom_append {high value : Nat} {digits : List Char}
    (text : List Char) (hdigits : Numeral 10 digitValue? high digits value)
    (hfits : value < Word.count) :
    decimalValueFrom high (digits ++ text) = decimalValueFrom value text := by
  induction digits generalizing high with
  | nil =>
    obtain rfl := Text.numeral_nil_iff.mp hdigits
    rfl
  | cons c digits ih =>
    obtain ⟨digit, hdigit, hrest⟩ := Text.numeral_cons_iff.mp hdigits
    -- digits never make a value smaller, so it fits on the way if it does at the end
    have hstep : high * 10 + digit < Word.count :=
      Nat.lt_of_le_of_lt (hrest.le (by decide)) hfits
    rw [List.cons_append, decimalValueFrom, hdigit]
    dsimp only
    rw [if_pos hstep, ih hrest]

/-- Digits in front of a text are too large for it to matter, if they do not fit a word. -/
private theorem decimalValueFrom_append_of_large {high value : Nat} {digits : List Char}
    (text : List Char) (hhigh : high < Word.count)
    (hdigits : Numeral 10 digitValue? high digits value) (hlarge : Word.count ≤ value) :
    decimalValueFrom high (digits ++ text) = .error .numberTooLarge := by
  induction digits generalizing high with
  | nil =>
    obtain rfl := Text.numeral_nil_iff.mp hdigits
    exact absurd hhigh (Nat.not_lt.mpr hlarge)
  | cons c digits ih =>
    obtain ⟨digit, hdigit, hrest⟩ := Text.numeral_cons_iff.mp hdigits
    rw [List.cons_append, decimalValueFrom, hdigit]
    dsimp only
    split
    case isTrue hfits => exact ih hfits hrest
    case isFalse => rfl

/-- **Digits are read from the left**, and what is met first decides. -/
theorem decimalValueFrom_eq_iff {high : Nat} {text : List Char} {result : Except SyntaxError Nat}
    (hhigh : high < Word.count) :
    decimalValueFrom high text = result ↔ DecimalReading high text result := by
  constructor
  · rintro rfl
    exact decimalReading_decimalValueFrom text hhigh
  · intro h
    cases h with
    | fits hvalue hfits => exact (decimalValueFrom_eq_ok_iff hhigh).mpr ⟨hvalue, hfits⟩
    | @stray _ text c _ hdigits hfits hc =>
      -- the digits are read without an error, so that the other character is met
      rw [decimalValueFrom_append _ hdigits hfits, decimalValueFrom, hc]
    -- too large before any other character is met
    | tooLarge hdigits hlarge => exact decimalValueFrom_append_of_large _ hhigh hdigits hlarge

/-! ### Numbers -/

open Outcome (success refusal)
open Grammar

/-- What is found where a decimal number is looked for: possibly a minus, and then digits. -/
inductive DecimalAt (tokens : Nat → Token) (start : Nat) : Outcome → Prop where
  /-- A number, which is negated behind a minus. -/
  | number {minus : Bool} {value : Nat} {word : Word}
    (hminus : (tokens start).kind = .minus ↔ minus = true)
    (hkind : (tokens (start + minus.toNat)).kind = .number)
    (hvalue : DecimalReading 0 (tokens (start + minus.toNat)).text.toList (.ok value))
    (hword : word.toNat = if minus then (Word.count - value) % Word.count else value) :
    DecimalAt tokens start
      (success (start + minus.toNat + 1) [.leaf (.number word) (tokens (start + minus.toNat))])
  /-- Digits with an error, which is located at them. -/
  | malformed {minus : Bool} {error : SyntaxError}
    (hminus : (tokens start).kind = .minus ↔ minus = true)
    (hkind : (tokens (start + minus.toNat)).kind = .number)
    (herror : DecimalReading 0 (tokens (start + minus.toNat)).text.toList (.error error)) :
    DecimalAt tokens start ⟨.failed, start + minus.toNat, [],
      [⟨error, (tokens (start + minus.toNat)).location⟩]⟩
  /-- Anything else. -/
  | other {minus : Bool} (hminus : (tokens start).kind = .minus ↔ minus = true)
    (hkind : (tokens (start + minus.toNat)).kind ≠ .number) :
    DecimalAt tokens start (refusal start)

/-- What is found where a number is looked for. -/
inductive NumberAt (tokens : Nat → Token) (start : Nat) : Outcome → Prop where
  /-- A word of the form of a hexadecimal number, with a value that fits. -/
  | hex {value : Nat} {word : Word} (hkind : (tokens start).kind = .word)
    (hvalue : HexNumber (tokens start).text value) (hfits : value < Word.count)
    (hword : word.toNat = value) :
    NumberAt tokens start (success (start + 1) [.leaf (.number word) (tokens start)])
  /-- Such a word with a value that does not fit. -/
  | hexTooLarge {value : Nat} (hkind : (tokens start).kind = .word)
    (hvalue : HexNumber (tokens start).text value) (hlarge : Word.count ≤ value) :
    NumberAt tokens start
      ⟨.failed, start, [], [⟨.numberTooLarge, (tokens start).location⟩]⟩
  /-- What is found of a decimal number. -/
  | decimal {outcome : Outcome}
    (hform : (tokens start).kind = .word → ¬ IsHexForm (tokens start).text)
    (hpound : (tokens start).kind ≠ .pound) (h : DecimalAt tokens start outcome) :
    NumberAt tokens start outcome
  /-- A decimal number behind a pound sign. -/
  | pound {position : Nat} {nodes : List Node} (hpound : (tokens start).kind = .pound)
    (h : DecimalAt tokens (start + 1) (success position nodes)) :
    NumberAt tokens start (success position nodes)
  /-- Digits behind a pound sign, with an error. -/
  | poundMalformed {position : Nat} {errors : List SyntaxFault}
    (hpound : (tokens start).kind = .pound)
    (h : DecimalAt tokens (start + 1) ⟨.failed, position, [], errors⟩) :
    NumberAt tokens start ⟨.failed, start, [], errors⟩
  /-- Anything else behind a pound sign, which is an error right behind it. -/
  | poundOther (hpound : (tokens start).kind = .pound)
    (h : DecimalAt tokens (start + 1) (refusal (start + 1))) :
    NumberAt tokens start ⟨.failed, start, [],
      [⟨.unexpectedToken "decimal number" (tokens (start + 1)).kind,
        (tokens (start + 1)).location⟩]⟩

variable {tokens : Nat → Token} {budget start : Nat} {outcome : Outcome}

/-- The word of a value, and the one that a minus makes of it. -/
private theorem toNat_signed {value : Nat} (hfits : value < Word.count) (minus : Bool) :
    (if minus then - BitVec.ofNat 16 value else BitVec.ofNat 16 value).toNat =
      if minus then (Word.count - value) % Word.count else value := by
  have hvalue : (BitVec.ofNat 16 value).toNat = value := by
    rw [BitVec.toNat_ofNat]
    exact Nat.mod_eq_of_lt hfits
  cases minus with
  | false => exact hvalue
  | true =>
    show (- BitVec.ofNat 16 value).toNat = _
    rw [BitVec.toNat_neg, hvalue]
    rfl

/-- Digits that are read fit a word. -/
private theorem DecimalReading.lt {high value : Nat} {text : List Char}
    (h : DecimalReading high text (.ok value)) : value < Word.count := by
  cases h with
  | fits hvalue hfits => exact hfits

/-- What the rule of decimal numbers does, told by the minus in front. -/
private theorem run_decimalNumber {minus : Bool}
    (hminus : (tokens start).kind = .minus ↔ minus = true) :
    decimalNumber.run (.ofTokens tokens) budget start =
      some ((decimalDigits minus.toNat (tokens (start + minus.toNat))
        (fun word => if minus then - word else word)).outcome tokens start) := by
  rw [decimalNumber, Rule.run_primitive]
  cases minus with
  | true => rw [if_pos (hminus.mpr rfl)]; rfl
  | false => rw [if_neg fun h => Bool.false_ne_true (hminus.mp h)]; rfl

/-- What is found of a decimal number is what its rule gives. -/
private theorem DecimalAt.run_eq (h : DecimalAt tokens start outcome) :
    decimalNumber.run (.ofTokens tokens) budget start = some outcome := by
  cases h with
  | @number minus value word hminus hkind hvalue hword =>
    have hread := (decimalValueFrom_eq_iff (by decide)).mpr hvalue
    -- a word is told by its number
    have hsigned : (if minus then - BitVec.ofNat 16 value else BitVec.ofNat 16 value) = word :=
      BitVec.eq_of_toNat_eq ((toNat_signed hvalue.lt minus).trans hword.symm)
    rw [run_decimalNumber hminus, decimalDigits, if_neg (not_not_intro hkind), hread]
    dsimp only [Decision.outcome]
    rw [hsigned]
    rfl
  | malformed hminus hkind herror =>
    have hread := (decimalValueFrom_eq_iff (by decide)).mpr herror
    rw [run_decimalNumber hminus, decimalDigits, if_neg (not_not_intro hkind), hread]
    rfl
  | other hminus hkind =>
    rw [run_decimalNumber hminus, decimalDigits, if_pos hkind]
    rfl

/-- Something is found of a decimal number everywhere. -/
private theorem exists_decimalAt (tokens : Nat → Token) (start : Nat) :
    ∃ outcome, DecimalAt tokens start outcome := by
  obtain ⟨minus, hminus⟩ : ∃ minus, (tokens start).kind = .minus ↔ minus = true :=
    ⟨decide ((tokens start).kind = .minus), decide_eq_true_iff.symm⟩
  by_cases hkind : (tokens (start + minus.toNat)).kind = .number
  · have hread := decimalReading_decimalValueFrom
      (tokens (start + minus.toNat)).text.toList (show 0 < Word.count by decide)
    generalize decimalValueFrom 0 (tokens (start + minus.toNat)).text.toList = result at hread
    cases result with
    | error error => exact ⟨_, .malformed hminus hkind hread⟩
    | ok value => exact ⟨_, .number hminus hkind hread (toNat_signed hread.lt minus)⟩
  · exact ⟨_, .other hminus hkind⟩

/-- The first alternative that is not rejected is the outcome. -/
private theorem runAny_cons_of_run {rule : Rule} {rules : List Rule}
    (h : rule.run (.ofTokens tokens) budget start = some outcome)
    (hverdict : outcome.verdict ≠ .rejected) :
    Rule.runAny (.ofTokens tokens) budget (rule :: rules) start = some outcome :=
  Rule.runAny_cons_eq_some_iff.mpr ⟨outcome, h, .inr ⟨hverdict, rfl⟩⟩

/-- An alternative that leaves no trace gives way to the others. -/
private theorem runAny_cons_of_refusal {rule : Rule} {rules : List Rule}
    (h : rule.run (.ofTokens tokens) budget start = some (refusal start))
    (hrest : Rule.runAny (.ofTokens tokens) budget rules start = some outcome) :
    Rule.runAny (.ofTokens tokens) budget (rule :: rules) start = some outcome :=
  Rule.runAny_cons_eq_some_iff.mpr ⟨_, h, .inl ⟨rfl, outcome, hrest, rfl⟩⟩

/-- A sequence of a single rule goes back unless this matches. -/
private theorem runAll_singleton {rule : Rule}
    (h : rule.run (.ofTokens tokens) budget start = some outcome) :
    Rule.runAll (.ofTokens tokens) budget [rule] start = some (outcome.rewind start) := by
  refine Rule.runAll_cons_eq_some_iff.mpr ⟨outcome, h, ?_⟩
  by_cases hmatched : outcome.verdict = .matched
  · refine .inl ⟨hmatched, .idle outcome.position, rfl, ?_⟩
    obtain ⟨verdict, position, nodes, errors⟩ := outcome
    obtain rfl : verdict = .matched := hmatched
    simp [Outcome.rewind, Outcome.append, Outcome.idle]
  · exact .inr ⟨hmatched, rfl⟩

/-- What comes behind a pound sign is a decimal number, or an error. -/
private theorem run_pound {found : Outcome} (hpound : (tokens start).kind = .pound)
    (h : decimalNumber.run (.ofTokens tokens) budget (start + 1) = some found) :
    (Rule.all [.atom .pound, .commit decimalNumber]).run (.ofTokens tokens) budget start =
      some ((found.insist "decimal number" (tokens found.position)).rewind start) := by
  have hatom : (Rule.atom .pound).run (.ofTokens tokens) budget start =
      some (success (start + 1) []) := run_atom_eq_success_iff.mpr ⟨hpound, rfl, rfl⟩
  have hcommit : (Rule.commit decimalNumber).run (.ofTokens tokens) budget (start + 1) =
      some (found.insist "decimal number" (tokens found.position)) := by
    rw [Rule.run_commit, h]
    rfl
  rw [Rule.run]
  -- the sign alone adds nothing, and is given back if what is behind it fails
  refine Rule.runAll_cons_eq_some_iff.mpr
    ⟨_, hatom, .inl ⟨rfl, _, runAll_singleton hcommit, ?_⟩⟩
  generalize found.insist "decimal number" (tokens found.position) = insisted
  obtain ⟨verdict, position, nodes, errors⟩ := insisted
  cases verdict <;> rfl

/-- What is found of a number is what its rule gives. -/
private theorem NumberAt.run_eq (h : NumberAt tokens start outcome) :
    number.run (.ofTokens tokens) budget start = some outcome := by
  -- the alternatives are tried in turn, and a pound sign is no hexadecimal number
  have hhex : (tokens start).kind = .pound →
      hexNumber.run (.ofTokens tokens) budget start = some (refusal start) := by
    intro hkind
    refine run_hexNumber_eq_refusal_iff.mpr fun hword => ?_
    rw [hkind] at hword
    cases hword
  rw [run_number]
  cases h with
  | @hex value word hkind hvalue hfits hword =>
    obtain rfl : BitVec.ofNat 16 value = word := by
      refine BitVec.eq_of_toNat_eq ?_
      rw [BitVec.toNat_ofNat, hword]
      exact Nat.mod_eq_of_lt hfits
    exact runAny_cons_of_run
      (run_hexNumber_eq_success_iff.mpr ⟨value, hkind, hvalue, hfits, rfl, rfl⟩)
      Verdict.noConfusion
  | hexTooLarge hkind hvalue hlarge =>
    -- a hexadecimal number that does not fit is an error, so no other alternative is tried
    refine runAny_cons_of_run ?_ Verdict.noConfusion
    rw [hexNumber, Rule.run_primitive, if_neg (not_not_intro hkind),
      hexValue_eq_some_iff.mpr hvalue]
    dsimp only
    rw [if_neg (Nat.not_lt.mpr hlarge)]
    rfl
  | decimal hform hpound h =>
    -- no hexadecimal number and no pound sign, so that the last alternative decides
    refine runAny_cons_of_refusal (run_hexNumber_eq_refusal_iff.mpr hform)
      (runAny_cons_of_refusal ?_ ?_)
    · rw [Rule.run]
      exact Rule.runAll_cons_eq_refusal (run_atom_eq_refusal hpound)
    · have hrun : decimalNumber.run (.ofTokens tokens) budget start = some outcome := h.run_eq
      cases h with
      | number | malformed => exact runAny_cons_of_run hrun Verdict.noConfusion
      | other => exact runAny_cons_of_refusal hrun Rule.runAny_nil
  | pound hpound h =>
    refine runAny_cons_of_refusal (hhex hpound) (runAny_cons_of_run ?_ Verdict.noConfusion)
    rw [run_pound hpound h.run_eq]
    rfl
  | poundMalformed hpound h =>
    refine runAny_cons_of_refusal (hhex hpound) (runAny_cons_of_run ?_ Verdict.noConfusion)
    rw [run_pound hpound h.run_eq]
    rfl
  | poundOther hpound h =>
    refine runAny_cons_of_refusal (hhex hpound) (runAny_cons_of_run ?_ Verdict.noConfusion)
    rw [run_pound hpound h.run_eq]
    rfl

/-- Something is found of a number everywhere. -/
theorem exists_numberAt (tokens : Nat → Token) (start : Nat) :
    ∃ outcome, NumberAt tokens start outcome := by
  by_cases hpound : (tokens start).kind = .pound
  · -- what is behind the pound sign decides
    obtain ⟨_, h⟩ := exists_decimalAt tokens (start + 1)
    have hfound := h
    cases h with
    | number => exact ⟨_, .pound hpound hfound⟩
    | malformed => exact ⟨_, .poundMalformed hpound hfound⟩
    | other => exact ⟨_, .poundOther hpound hfound⟩
  by_cases hform : (tokens start).kind = .word ∧ IsHexForm (tokens start).text
  · -- the form of a hexadecimal number, which fits a word or not
    obtain ⟨hkind, value, hvalue⟩ := hform
    by_cases hfits : value < Word.count
    · have hword : (BitVec.ofNat 16 value).toNat = value := by
        rw [BitVec.toNat_ofNat]
        exact Nat.mod_eq_of_lt hfits
      exact ⟨_, .hex hkind hvalue hfits hword⟩
    · exact ⟨_, .hexTooLarge hkind hvalue (Nat.le_of_not_lt hfits)⟩
  · -- what is left is a decimal number, or none
    obtain ⟨outcome, h⟩ := exists_decimalAt tokens start
    exact ⟨outcome, .decimal (fun hkind hhex => hform ⟨hkind, hhex⟩) hpound h⟩

/-- **What numbers are.** The rule of numbers finds exactly what is described above, at every place
    of every sequence of tokens. -/
theorem run_number_eq_some_iff :
    number.run (.ofTokens tokens) budget start = some outcome ↔ NumberAt tokens start outcome := by
  refine ⟨fun hrun => ?_, NumberAt.run_eq⟩
  obtain ⟨found, h⟩ := exists_numberAt tokens start
  obtain rfl := Option.some.inj (h.run_eq.symm.trans hrun)
  exact h

end Line

section Source

variable {context : Context} {source : String}

/-- **Numbers of a source.** Wherever a number is looked for in a source, exactly one of the
    outcomes that are described comes of it: the context goes to its place, and gets its nodes and
    errors. -/
theorem Context.Reads.apply_number (h : context.Reads source) :
    ∃ outcome behind, Line.NumberAt (Lexer.ofSource source).nth context.position outcome ∧
      (∀ other, Line.NumberAt (Lexer.ofSource source).nth context.position other →
        other = outcome) ∧
      context.apply Line.number = .ok (outcome.verdict, behind) ∧ behind.Reads source ∧
      behind.position = outcome.position ∧ behind.nodes = context.nodes ++ outcome.nodes ∧
      behind.errors = context.errors ++ outcome.errors := by
  obtain ⟨outcome, hnumber⟩ := Line.exists_numberAt (Lexer.ofSource source).nth context.position
  have hrun : Line.number.run (.ofTokens (Lexer.ofSource source).nth) context.budget
      context.position = some outcome := Line.run_number_eq_some_iff.mpr hnumber
  -- what the rule gives on the tokens is what the context becomes
  obtain ⟨behind, happly, hreads, -, hposition, hnodes, herrors⟩ := h.exists_apply hrun
  refine ⟨outcome, behind, hnumber, fun other hother => ?_, happly, hreads, hposition, hnodes,
    herrors⟩
  exact Option.some.inj ((Line.run_number_eq_some_iff.mpr hother).symm.trans hrun)

/-- A negative number behind a pound sign. -/
theorem Context.Reads.apply_number_negative :
    (Context.ofSource "#-012 R0").Reads "#-012 R0" ∧
      ∃ outcome behind, Line.NumberAt (Lexer.ofSource "#-012 R0").nth 0 outcome ∧
        (Context.ofSource "#-012 R0").apply Line.number = .ok (outcome.verdict, behind) ∧
        behind.position = outcome.position := by
  have hreads := Context.reads_ofSource "#-012 R0"
  obtain ⟨outcome, behind, hnumber, -, happly, -, hposition, -⟩ := hreads.apply_number
  exact ⟨hreads, outcome, behind, hnumber, happly, hposition⟩

/-- A number whose first digits are too much for a word is too large, also if it has a letter behind
    them. -/
theorem Line.numberTooLarge_aside :
    let token := (Lexer.ofSource "70000a").nth 0
    token.kind = .number ∧ (∃ c ∈ token.text.toList, Text.digitValue? c = none) ∧
      ((Context.ofSource "70000a").apply Line.number).map
          (fun (verdict, behind) => (verdict, behind.errors)) =
        .ok (.failed, [⟨.numberTooLarge, .start⟩]) ∧
      ((Context.ofSource "7a").apply Line.number).map
          (fun (verdict, behind) => (verdict, behind.errors)) =
        .ok (.failed, [⟨.invalidNumber, .start⟩]) := by
  intro token
  have hletter : 'a' ∈ token.text.toList := by decide +kernel
  exact ⟨by decide +kernel, ⟨'a', hletter, by decide⟩, by decide +kernel, by decide +kernel⟩

end Source

end LC3
