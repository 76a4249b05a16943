import LC3.Proofs.TreeTokens
import Mathlib.Data.List.Perm.Basic

namespace LC3

/-!
# The case of letters

Keywords, registers and hexadecimal numbers are recognised in any case. Each of them is looked up in
a way of its own; here is that all these ways agree on words which differ in the case of letters
only. The letters of the flags of a branch can also come in any order.

* `SameLetters` — texts that differ in the case of letters only.
* `SameLetters.directive_eq`, `SameLetters.register_eq`, `SameLetters.hexNumber_iff`,
  `Keyword.lookup_sameLetters` — what words mean does not depend on the case of their letters.
* `Keyword.lookup_sameBranch` — branches whose flags come in another order.
-/

/-! ### Letters -/

/-- What is the same for the letters of ASCII in either case is so for every character. -/
theorem apply_toUpper {α : Type} {f : Char → α}
    (h : ∀ n < 128, f (Char.ofNat n).toUpper = f (Char.ofNat n)) (c : Char) :
    f c.toUpper = f c := by
  -- a character beyond ASCII has no upper case here
  by_cases hascii : c.toNat < 128
  · have hc := h c.toNat hascii
    rwa [Char.ofNat_toNat] at hc
  · have hsame : c.toUpper = c := by
      unfold Char.toUpper
      split
      case isTrue hletter =>
        have hbound : c.val.toNat ≤ 'z'.val.toNat := UInt32.le_iff_toNat_le.mp hletter.2
        exact absurd (Nat.lt_of_le_of_lt hbound (by decide)) hascii
      case isFalse => rfl
    rw [hsame]

/-- What does not depend on case is the same for characters that are the same but for their case. -/
theorem apply_eq_of_toUpper {α : Type} {f : Char → α} {c d : Char}
    (h : ∀ n < 128, f (Char.ofNat n).toUpper = f (Char.ofNat n)) (hcd : d.toUpper = c.toUpper) :
    f d = f c := by
  rw [← apply_toUpper h d, hcd, apply_toUpper h c]

theorem isWordPart_toUpper (c : Char) : Lexeme.isWordPart c.toUpper = Lexeme.isWordPart c :=
  apply_toUpper (by decide +kernel) c

theorem isWordStart_toUpper (c : Char) : Lexeme.isWordStart c.toUpper = Lexeme.isWordStart c :=
  apply_toUpper (by decide +kernel) c

theorem utf8Size_toUpper (c : Char) : c.toUpper.utf8Size = c.utf8Size :=
  apply_toUpper (f := Char.utf8Size) (by decide +kernel) c

theorem isLetter_toUpper (c : Char) : Flags.isLetter c.toUpper = Flags.isLetter c :=
  apply_toUpper (by decide +kernel) c

theorem toLower_toUpper (c : Char) : c.toUpper.toLower = c.toLower :=
  apply_toUpper (by decide +kernel) c

theorem hexDigitValue?_toUpper (c : Char) :
    Text.hexDigitValue? c.toUpper = Text.hexDigitValue? c :=
  apply_toUpper (by decide +kernel) c

/-! ### Words -/

/-- Whether two texts are the same but for the case of their letters. -/
def SameLetters (text other : List Char) : Prop :=
  other.map Char.toUpper = text.map Char.toUpper

instance (text other : List Char) : Decidable (SameLetters text other) :=
  inferInstanceAs (Decidable (_ = _))

namespace SameLetters

variable {text other : List Char} {word word' : String}

/-- Texts in different case start with the same letter, and go on with the same letters. -/
theorem exists_cons {c : Char} (h : SameLetters (c :: text) other) :
    ∃ d rest, other = d :: rest ∧ d.toUpper = c.toUpper ∧ SameLetters text rest := by
  cases other with
  | nil => cases h
  | cons d rest =>
    obtain ⟨hd, hrest⟩ := List.cons.inj h
    exact ⟨d, rest, rfl, hd, hrest⟩

theorem eq_nil (h : SameLetters [] other) : other = [] :=
  List.map_eq_nil_iff.mp h

/-- Names are found in any case. -/
theorem isNamed_eq (h : SameLetters word.toList word'.toList) (name : String) :
    isNamed name word' = isNamed name word := by
  rw [isNamed, isNamed, h]

/-- The name of a directive means the same in any case. -/
theorem directive_eq (h : SameLetters word.toList word'.toList) :
    Directive.ofName? word' = Directive.ofName? word := by
  simp only [Directive.ofName?, h.isNamed_eq]

theorem mnemonic_eq (h : SameLetters word.toList word'.toList) :
    Mnemonic.ofName? word' = Mnemonic.ofName? word := by
  simp only [Mnemonic.ofName?, h.isNamed_eq]

theorem lookupPlain_eq (h : SameLetters word.toList word'.toList) :
    Keyword.lookupPlain word' = Keyword.lookupPlain word := by
  rw [Keyword.lookupPlain, Keyword.lookupPlain, h.mnemonic_eq]

/-- A register means the same in either case. -/
theorem register_eq (h : SameLetters word.toList word'.toList) :
    Register.ofName? word' = Register.ofName? word := by
  unfold Register.ofName?
  generalize word.toList = text at h
  generalize word'.toList = other at h
  match text, other, h with
  | [], other, h =>
    rw [h.eq_nil]
  | [c], other, h =>
    obtain ⟨d, rest, rfl, -, hrest⟩ := h.exists_cons
    rw [hrest.eq_nil]
  | [letter, digit], other, h =>
    obtain ⟨letter', rest, rfl, hletter, hrest⟩ := h.exists_cons
    obtain ⟨digit', rest, rfl, hdigit, hrest⟩ := hrest.exists_cons
    rw [hrest.eq_nil]
    -- a digit has no case
    have hnumber : (if digit'.isDigit then some digit'.toNat else none) =
        if digit.isDigit then some digit.toNat else none :=
      apply_eq_of_toUpper (f := fun c => if c.isDigit then some c.toNat else none)
        (by decide +kernel) hdigit
    dsimp only
    rw [hletter]
    by_cases h' : digit'.isDigit <;> by_cases h : digit.isDigit <;> simp_all
  | _ :: _ :: _ :: _, other, h =>
    obtain ⟨_, rest, rfl, -, hrest⟩ := h.exists_cons
    obtain ⟨_, rest, rfl, -, hrest⟩ := hrest.exists_cons
    obtain ⟨_, rest, rfl, -, -⟩ := hrest.exists_cons
    rfl

/-- Hexadecimal digits are worth the same in either case. -/
theorem hexValueFrom?_eq (h : SameLetters text other) (high : Nat) :
    Text.hexValueFrom? high other = Text.hexValueFrom? high text := by
  induction text generalizing other high with
  | nil => rw [h.eq_nil]
  | cons c text ih =>
    obtain ⟨d, rest, rfl, hd, hrest⟩ := h.exists_cons
    have hdigit : Text.hexDigitValue? d = Text.hexDigitValue? c := by
      rw [← hexDigitValue?_toUpper d, hd, hexDigitValue?_toUpper c]
    simp only [Text.hexValueFrom?, hdigit, ih hrest]

/-- Hexadecimal digits have the same value in either case. -/
theorem hexValue?_eq (h : SameLetters text other) :
    Text.hexValue? other = Text.hexValue? text := by
  have hempty : other.isEmpty = text.isEmpty := by
    cases text with
    | nil => rw [h.eq_nil]
    | cons c text =>
      obtain ⟨d, rest, rfl, -, -⟩ := h.exists_cons
      rfl
  rw [Text.hexValue?, Text.hexValue?, hempty, h.hexValueFrom?_eq]

/-- What stands behind the `x` of a word. -/
private theorem hexDigits?_cons (c : Char) (text : List Char) :
    Line.hexDigits? (c :: text) = if c = 'x' ∨ c = 'X' then some text else none := by
  unfold Line.hexDigits?
  split
  case h_1 h | h_2 h =>
    obtain ⟨rfl, rfl⟩ := List.cons.inj h
    rfl
  case h_3 hlower hupper =>
    refine (if_neg ?_).symm
    rintro (rfl | rfl)
    · exact hlower text rfl
    · exact hupper text rfl

/-- A hexadecimal number has the same value in either case. -/
theorem hexNumber_iff (h : SameLetters word.toList word'.toList) (value : Nat) :
    Line.HexNumber word' value ↔ Line.HexNumber word value := by
  rw [← Line.hexValue_eq_some_iff, ← Line.hexValue_eq_some_iff]
  generalize word.toList = text at h
  generalize word'.toList = other at h
  cases text with
  | nil => rw [h.eq_nil]
  | cons c text =>
    obtain ⟨d, rest, rfl, hd, hrest⟩ := h.exists_cons
    have hletter : decide (d = 'x' ∨ d = 'X') = decide (c = 'x' ∨ c = 'X') :=
      apply_eq_of_toUpper (f := fun c => decide (c = 'x' ∨ c = 'X')) (by decide +kernel) hd
    simp only [decide_eq_decide] at hletter
    rw [hexDigits?_cons, hexDigits?_cons]
    simp only [hletter]
    split
    · rw [Option.bind_some, Option.bind_some, hrest.hexValue?_eq]
    · rfl

end SameLetters

/-! ### Flags -/

namespace Flags

theorem insert?_toUpper (flags : Flags) (letter : Char) :
    flags.insert? letter.toUpper = flags.insert? letter := by
  rw [insert?, insert?, toLower_toUpper]

/-- A letter sets one of the three flags. -/
private theorem insert?_cases (letter : Char) :
    (∀ flags : Flags, flags.insert? letter =
      if flags.negative then Option.none else some { flags with negative := true }) ∨
    (∀ flags : Flags, flags.insert? letter =
      if flags.zero then Option.none else some { flags with zero := true }) ∨
    ∀ flags : Flags, flags.insert? letter =
      if flags.positive then Option.none else some { flags with positive := true } := by
  unfold insert?
  split
  · exact .inl fun _ => rfl
  · exact .inr (.inl fun _ => rfl)
  · exact .inr (.inr fun _ => rfl)

/-- It does not matter which of two flags is set first. -/
private theorem insert?_comm (flags : Flags) (first second : Char) :
    (flags.insert? first).bind (·.insert? second) =
      (flags.insert? second).bind (·.insert? first) := by
  obtain ⟨negative, zero, positive⟩ := flags
  rcases insert?_cases first with hfirst | hfirst | hfirst <;>
    rcases insert?_cases second with hsecond | hsecond | hsecond <;>
      cases negative <;> cases zero <;> cases positive <;> simp [hfirst, hsecond]

/-- The flags of some letters, if none of them occurs again. -/
private def more (flags? : Option Flags) (letter : Char) : Option Flags :=
  flags?.bind (·.insert? letter)

/-- After a letter that cannot be added, no flags are left. -/
private theorem foldl_more_none (letters : List Char) :
    letters.foldl more Option.none = Option.none := by
  induction letters with
  | nil => rfl
  | cons letter letters ih => exact ih

/-- Adding letters is a fold, except that the letter at fault is forgotten. -/
private theorem toOption_insertAll (flags : Flags) (letters : List Char) :
    (flags.insertAll letters).toOption = letters.foldl more (some flags) := by
  induction letters generalizing flags with
  | nil => rfl
  | cons letter letters ih =>
    rw [insertAll, List.foldl_cons]
    show _ = letters.foldl more (flags.insert? letter)
    split
    case h_1 flags' hflags => rw [ih, hflags]
    case h_2 hflags =>
      rw [hflags, foldl_more_none]
      rfl

/-- **Flags come in any order and case.** The same letters set the same flags, however they are
    ordered and written. -/
theorem insertAll_permuted {flags flags' : Flags} {letters letters' : List Char}
    (h : (letters'.map Char.toUpper).Perm (letters.map Char.toUpper))
    (hflags : flags.insertAll letters = .ok flags') :
    flags.insertAll letters' = .ok flags' := by
  -- upper case does not change what the letters add
  have hupper : ∀ letters : List Char, (letters.map Char.toUpper).foldl more (some flags) =
      letters.foldl more (some flags) := by
    intro letters
    have hsame : (fun flags? (letter : Char) => more flags? letter.toUpper) = more := by
      funext flags? letter
      simp only [more, insert?_toUpper]
    rw [List.foldl_map, hsame]
  -- two letters can be added in either order
  have : RightCommutative more := by
    refine ⟨fun flags? first second => ?_⟩
    cases flags? with
    | none => rfl
    | some flags => exact insert?_comm flags first second
  have hsame : (flags.insertAll letters').toOption = (flags.insertAll letters).toOption := by
    rw [toOption_insertAll, toOption_insertAll, ← hupper letters', ← hupper letters, h.foldl_eq]
  rw [hflags] at hsame
  cases hletters : flags.insertAll letters' with
  | ok flags'' =>
    rw [hletters] at hsame
    rw [Option.some.inj hsame]
  | error letter =>
    rw [hletters] at hsame
    cases hsame

/-- Letters of flags are so in any order and case. -/
private theorem all_isLetter_permuted {letters letters' : List Char}
    (h : (letters'.map Char.toUpper).Perm (letters.map Char.toUpper)) :
    letters'.all isLetter = letters.all isLetter := by
  have hupper : ∀ letters : List Char, (letters.map Char.toUpper).all isLetter =
      letters.all isLetter := by
    intro letters
    simp only [List.all_map, Function.comp_def, isLetter_toUpper]
  rw [← hupper letters', ← hupper letters, h.all_eq]

/-- Reordering leaves no letters only if there are none. -/
private theorem isEmpty_permuted {letters letters' : List Char}
    (h : (letters'.map Char.toUpper).Perm (letters.map Char.toUpper)) :
    letters'.isEmpty = letters.isEmpty := by
  have hlength : letters'.length = letters.length := by simpa using h.length_eq
  cases letters <;> cases letters' <;> simp_all

/-- Reordered letters of a suffix set the same flags. -/
theorem ofSuffix_permuted {flags : Flags} {suffix suffix' : List Char}
    (h : (suffix'.map Char.toUpper).Perm (suffix.map Char.toUpper))
    (hflags : ofSuffix suffix = .flags flags) : ofSuffix suffix' = .flags flags := by
  unfold ofSuffix at hflags ⊢
  rw [isEmpty_permuted h, all_isLetter_permuted h]
  split at hflags
  case isTrue hempty => rw [if_pos hempty, hflags]
  case isFalse hempty =>
    rw [if_neg hempty]
    split at hflags
    case isFalse => cases hflags
    case isTrue hall =>
      rw [if_pos hall]
      split at hflags
      case h_2 => cases hflags
      case h_1 more hmore =>
        rw [insertAll_permuted h hmore]
        exact hflags

/-- What is no suffix of a branch is none in any case. -/
theorem ofSuffix_other_iff {suffix suffix' : List Char} (h : SameLetters suffix suffix') :
    ofSuffix suffix' = .other ↔ ofSuffix suffix = .other := by
  have hperm : (suffix'.map Char.toUpper).Perm (suffix.map Char.toUpper) := by
    rw [show suffix'.map Char.toUpper = suffix.map Char.toUpper from h]
  have hother : ∀ suffix : List Char,
      ofSuffix suffix = .other ↔ suffix.isEmpty = false ∧ suffix.all isLetter = false := by
    intro suffix
    unfold ofSuffix
    split
    case isTrue hempty => simp [hempty]
    case isFalse hempty =>
      split
      case isTrue hall => split <;> simp [hall]
      case isFalse hall => simp [hempty, hall]
  rw [hother, hother, isEmpty_permuted hperm, all_isLetter_permuted hperm]

end Flags

/-! ### Instructions -/

namespace Keyword

/-- A word that may be a branch starts with the letters of one. -/
theorem exists_of_branchSuffix? {text suffix : List Char} (h : branchSuffix? text = some suffix) :
    ∃ b r, text = b :: r :: suffix ∧ b.toUpper = 'B' ∧ r.toUpper = 'R' := by
  unfold branchSuffix? at h
  split at h
  case h_2 => cases h
  case h_1 b r rest =>
    split at h
    case isFalse => cases h
    case isTrue hletters =>
      obtain rfl := Option.some.inj h
      exact ⟨b, r, rfl, hletters⟩

/-- The suffix of a branch is what follows the two letters. -/
theorem branchSuffix?_eq_some {b r : Char} {suffix : List Char} (hb : b.toUpper = 'B')
    (hr : r.toUpper = 'R') : branchSuffix? (b :: r :: suffix) = some suffix := by
  simp [branchSuffix?, hb, hr]

/-- The suffix of a word is found in any case. -/
theorem branchSuffix?_sameLetters {text other : List Char} (h : SameLetters text other) :
    Option.Rel SameLetters (branchSuffix? text) (branchSuffix? other) := by
  -- one direction is enough, since having the same letters is symmetric
  have hsome : ∀ {text other suffix : List Char}, SameLetters text other →
      branchSuffix? text = some suffix →
        ∃ suffix', branchSuffix? other = some suffix' ∧ SameLetters suffix suffix' := by
    intro text other suffix h hsuffix
    obtain ⟨b, r, rfl, hb, hr⟩ := exists_of_branchSuffix? hsuffix
    obtain ⟨b', _, rfl, hb', hrest⟩ := h.exists_cons
    obtain ⟨r', suffix', rfl, hr', hrest⟩ := hrest.exists_cons
    exact ⟨suffix', branchSuffix?_eq_some (hb'.trans hb) (hr'.trans hr), hrest⟩
  cases htext : branchSuffix? text with
  | some suffix =>
    obtain ⟨suffix', hother, hsame⟩ := hsome h htext
    rw [hother]
    exact .some hsame
  | none =>
    -- were the other a branch, the first would be one as well
    cases hother : branchSuffix? other with
    | none => exact .none
    | some suffix =>
      obtain ⟨suffix', hsuffix', -⟩ := hsome (Eq.symm h) hother
      rw [htext] at hsuffix'
      cases hsuffix'

/-- **Instructions mean the same in any case.** Only the letter that a branch repeats is told as it
    is written. -/
theorem lookup_sameLetters {word word' : String} (h : SameLetters word.toList word'.toList)
    (hplain : ∀ letter, lookup word ≠ .repeatedFlag letter) : lookup word' = lookup word := by
  have hsuffix := branchSuffix?_sameLetters h
  unfold lookup at hplain ⊢
  generalize branchSuffix? word.toList = suffix? at hsuffix hplain ⊢
  generalize branchSuffix? word'.toList = suffix'? at hsuffix ⊢
  cases hsuffix with
  | none => exact h.lookupPlain_eq
  | @some suffix suffix' hsame =>
    have hperm : (suffix'.map Char.toUpper).Perm (suffix.map Char.toUpper) := by
      rw [show suffix'.map Char.toUpper = suffix.map Char.toUpper from hsame]
    dsimp only at hplain ⊢
    cases hmeans : Flags.ofSuffix suffix with
    | flags flags => rw [Flags.ofSuffix_permuted hperm hmeans]
    | repeated letter =>
      -- a letter is repeated, which the hypothesis excludes
      rw [hmeans] at hplain
      exact absurd rfl (hplain letter)
    | other => rw [(Flags.ofSuffix_other_iff hsame).mpr hmeans, h.lookupPlain_eq]

/-- A plain word has no flags. -/
private theorem lookupPlain_ne (word : String) :
    (∀ mnemonic flags, lookupPlain word ≠ .instruction mnemonic (some flags)) ∧
      ∀ letter, lookupPlain word ≠ .repeatedFlag letter := by
  unfold lookupPlain
  split <;> simp

/-- A branch with flags, or one that repeats a flag, has a suffix. -/
theorem exists_branchSuffix? {word : String}
    (h : (∃ mnemonic flags, lookup word = .instruction mnemonic (some flags)) ∨
      ∃ letter, lookup word = .repeatedFlag letter) :
    ∃ suffix, branchSuffix? word.toList = some suffix := by
  unfold lookup at h
  split at h
  case h_1 =>
    rcases h with ⟨mnemonic, flags, h⟩ | ⟨letter, h⟩
    · exact absurd h ((lookupPlain_ne word).1 mnemonic flags)
    · exact absurd h ((lookupPlain_ne word).2 letter)
  case h_2 suffix hsuffix => exact ⟨suffix, hsuffix⟩

/-- A word that starts like a branch is no directive, no register and no number. -/
theorem none_of_branchSuffix? {word : String} {suffix : List Char}
    (h : branchSuffix? word.toList = some suffix) :
    Directive.ofName? word = none ∧ Register.ofName? word = none ∧
      ∀ value, ¬ Line.HexNumber word value := by
  obtain ⟨b, r, hword, hb, hr⟩ := exists_of_branchSuffix? h
  refine ⟨?_, ?_, ?_⟩
  · rw [Directive.ofName?, List.find?_eq_none]
    intro directive _
    cases directive <;> simp [isNamed, hword, hb, hr, Directive.name]
  · -- no register starts with the first letter of a branch
    unfold Register.ofName?
    rw [hword]
    cases suffix <;> simp [hb]
  · rintro value ⟨letter, digits, hletters, hletter, -⟩
    obtain rfl := (List.cons.inj (hword.symm.trans hletters)).1
    rcases hletter with rfl | rfl <;> exact absurd hb (by decide)

/-- Whether two branches are the same but for the case of their letters and the order of their
    flags. -/
structure SameBranch (text other : List Char) : Prop where
  branch : SameLetters (text.take 2) (other.take 2)
  suffix : ((other.drop 2).map Char.toUpper).Perm ((text.drop 2).map Char.toUpper)

instance (text other : List Char) : Decidable (SameBranch text other) :=
  decidable_of_iff (SameLetters (text.take 2) (other.take 2) ∧
      ((other.drop 2).map Char.toUpper).Perm ((text.drop 2).map Char.toUpper))
    ⟨fun ⟨branch, suffix⟩ => ⟨branch, suffix⟩, fun h => ⟨h.branch, h.suffix⟩⟩

/-- **Branches mean the same with their flags in any order and case.** -/
theorem lookup_sameBranch {word word' : String} {mnemonic : Mnemonic} {flags : Flags}
    (h : SameBranch word.toList word'.toList)
    (hword : lookup word = .instruction mnemonic (some flags)) :
    (∃ suffix, branchSuffix? word'.toList = some suffix) ∧
      lookup word' = .instruction mnemonic (some flags) := by
  obtain ⟨suffix, hsuffix⟩ := exists_branchSuffix? (.inl ⟨mnemonic, flags, hword⟩)
  obtain ⟨b, r, htext, hb, hr⟩ := exists_of_branchSuffix? hsuffix
  -- the two letters in front are the same, the suffix is a reordered one
  obtain ⟨hbranch, hperm⟩ := h
  rw [htext] at hbranch hperm
  obtain ⟨b', rest, htake, hb', hrest⟩ := hbranch.exists_cons
  obtain ⟨r', rest, rfl, hr', hrest⟩ := hrest.exists_cons
  obtain rfl := hrest.eq_nil
  have htext' : word'.toList = b' :: r' :: word'.toList.drop 2 := by
    have hsplit := List.take_append_drop 2 word'.toList
    rw [htake] at hsplit
    exact hsplit.symm
  have hsuffix' : branchSuffix? word'.toList = some (word'.toList.drop 2) := by
    rw [htext']
    exact branchSuffix?_eq_some (hb'.trans hb) (hr'.trans hr)
  refine ⟨⟨_, hsuffix'⟩, ?_⟩
  unfold lookup at hword ⊢
  rw [hsuffix] at hword
  rw [hsuffix']
  dsimp only at hword ⊢
  cases hmeans : Flags.ofSuffix suffix with
  | flags flags' =>
    rw [hmeans] at hword
    rw [Flags.ofSuffix_permuted hperm hmeans]
    exact hword
  | repeated letter =>
    rw [hmeans] at hword
    cases hword
  | other =>
    rw [hmeans] at hword
    exact absurd hword ((lookupPlain_ne word).1 mnemonic flags)

end Keyword

end LC3
