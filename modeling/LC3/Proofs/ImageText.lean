import LC3.Image.HexText
import LC3.Proofs.Numerals
import Mathlib.Algebra.Group.Nat.Defs
import Mathlib.Data.List.Forall2

namespace LC3

/-!
# Which texts are images

A text is read line by line. What is on a line, without its comment and the white space around it,
is nothing or the numeral of a word: four hexadecimal digits, but for a plus sign that may stand in
place of the first.

* `Text.Numeral.lt` — how large a hexadecimal numeral can be.
* `Image.WordNumeral`, `Image.wordOfNumeral?_eq_some_iff` — the numerals of words.
* `Image.ofText?_eq_some_iff` — which texts are read, and as which words.
-/

/-! ### Lists -/

/-- All elements of a list are mapped if each is. -/
theorem mapM_eq_some_iff {α β : Type} {f : α → Option β} {list : List α} {mapped : List β} :
    list.mapM f = some mapped ↔ List.Forall₂ (fun a b => f a = some b) list mapped := by
  induction list generalizing mapped with
  | nil => cases mapped <;> simp
  | cons a list ih =>
    simp only [List.mapM_cons, Option.bind_eq_bind, Option.bind_eq_some_iff, Option.pure_def,
      Option.some.injEq, List.forall₂_cons_left_iff, ih]
    constructor
    · rintro ⟨b, hb, rest, hrest, rfl⟩
      exact ⟨b, rest, hb, hrest, rfl⟩
    · rintro ⟨b, rest, hb, hrest, rfl⟩
      exact ⟨b, hb, rest, hrest, rfl⟩

/-- A list is related to another one if each of its elements is to something. -/
theorem exists_forall₂_iff {α β : Type} {related : α → β → Prop} {list : List α} :
    (∃ others, List.Forall₂ related list others) ↔ ∀ a ∈ list, ∃ b, related a b := by
  induction list with
  | nil => simp
  | cons a list ih =>
    rw [List.forall_mem_cons, ← ih]
    constructor
    · rintro ⟨others, h⟩
      obtain ⟨b, rest, hfirst, hrest, -⟩ := List.forall₂_cons_left_iff.mp h
      exact ⟨⟨b, hfirst⟩, rest, hrest⟩
    · rintro ⟨⟨b, hfirst⟩, others, hrest⟩
      exact ⟨b :: others, .cons hfirst hrest⟩

/-! ### Numerals of words -/

namespace Text

variable {high value : Nat} {c : Char} {text : List Char}

/-- What holds of the hexadecimal digits of ASCII holds of all of them, as there are no others. -/
theorem of_hexDigitValue? {P : Char → Nat → Prop} {digit : Nat}
    (h : ∀ n < 128, ∀ digit ∈ hexDigitValue? (Char.ofNat n), P (Char.ofNat n) digit)
    (hc : hexDigitValue? c = some digit) : P c digit := by
  -- digits and letters up to F are all ASCII characters
  have hascii : c.toNat < 128 := by
    unfold hexDigitValue? at hc
    split at hc
    case isTrue hdigit =>
      simp only [Char.isDigit, Bool.and_eq_true, decide_eq_true_eq] at hdigit
      exact Nat.lt_of_le_of_lt (UInt32.le_iff_toNat_le.mp hdigit.2) (by decide)
    case isFalse =>
      split at hc
      case isTrue hlower =>
        exact Nat.lt_of_le_of_lt (UInt32.le_iff_toNat_le.mp hlower.2) (by decide)
      case isFalse =>
        split at hc
        case isTrue hupper =>
          exact Nat.lt_of_le_of_lt (UInt32.le_iff_toNat_le.mp hupper.2) (by decide)
        case isFalse => cases hc
  have hfound := h c.toNat hascii
  rw [Char.ofNat_toNat] at hfound
  exact hfound digit hc

/-- The value of a digit is below the base. -/
theorem hexDigitValue?_lt {digit : Nat} (h : hexDigitValue? c = some digit) : digit < 16 :=
  of_hexDigitValue? (P := fun _ digit => digit < 16) (by decide +kernel) h

theorem utf8Size_of_hexDigitValue? {digit : Nat} (h : hexDigitValue? c = some digit) :
    c.utf8Size = 1 :=
  of_hexDigitValue? (P := fun c _ => c.utf8Size = 1) (by decide +kernel) h

/-- A numeral is made of digits. -/
theorem Numeral.exists_digit {base : Nat} {digit? : Char → Option Nat}
    (h : Numeral base digit? high text value) : ∀ c ∈ text, ∃ digit, digit? c = some digit := by
  intro c hc
  obtain ⟨digits, hdigits, -⟩ := h
  have hmem : digit? c ∈ digits.map some := hdigits ▸ List.mem_map_of_mem hc
  obtain ⟨digit, -, hdigit⟩ := List.mem_map.mp hmem
  exact ⟨digit, hdigit.symm⟩

/-- A text of hexadecimal digits has as many bytes as digits. -/
theorem Numeral.byteLength_eq (h : Numeral 16 hexDigitValue? high text value) :
    byteLength text = text.length := by
  induction text generalizing high with
  | nil => rfl
  | cons c text ih =>
    obtain ⟨digit, hdigit, hrest⟩ := numeral_cons_iff.mp h
    rw [byteLength_cons, utf8Size_of_hexDigitValue? hdigit, ih hrest, List.length_cons,
      Nat.add_comm]

/-- A numeral is smaller than the next one with the same digits in front. -/
theorem Numeral.lt (h : Numeral 16 hexDigitValue? high text value) :
    value < (high + 1) * 16 ^ text.length := by
  induction text generalizing high with
  | nil =>
    obtain rfl := numeral_nil_iff.mp h
    simp
  | cons c text ih =>
    obtain ⟨digit, hdigit, hrest⟩ := numeral_cons_iff.mp h
    have hless : digit < 16 := hexDigitValue?_lt hdigit
    calc value < (high * 16 + digit + 1) * 16 ^ text.length := ih hrest
      _ ≤ ((high + 1) * 16) * 16 ^ text.length := Nat.mul_le_mul_right _ (by omega)
      _ = (high + 1) * 16 ^ (c :: text).length := by
        rw [List.length_cons, Nat.pow_succ, Nat.mul_assoc, Nat.mul_comm 16]

end Text

namespace Image

/-- A numeral that is read as a word: four hexadecimal digits, or a plus sign and three of them. -/
def WordNumeral (numeral : List Char) (word : Word) : Prop :=
  ∃ digits, Text.Numeral 16 Text.hexDigitValue? 0 digits word.toNat ∧
    (numeral = digits ∧ digits.length = 4 ∨ numeral = '+' :: digits ∧ digits.length = 3)

variable {numeral : List Char} {word : Word} {value : Nat}

/-- The value of a numeral is that of its digits. -/
private theorem numeralValue?_eq_some_iff :
    numeralValue? numeral = some value ↔ ∃ digits, digits ≠ [] ∧
      Text.Numeral 16 Text.hexDigitValue? 0 digits value ∧
      (numeral = digits ∨ numeral = '+' :: digits) := by
  have hplus : ∀ digits, ¬ Text.Numeral 16 Text.hexDigitValue? 0 ('+' :: digits) value := by
    intro digits h
    obtain ⟨digit, hdigit, -⟩ := Text.numeral_cons_iff.mp h
    cases hdigit
  unfold numeralValue?
  split
  case h_1 digits =>
    rw [Text.hexValue?_eq_some_iff]
    constructor
    · rintro ⟨hdigits, hvalue⟩
      exact ⟨digits, hdigits, hvalue, .inr rfl⟩
    · rintro ⟨digits', hdigits, hvalue, rfl | h⟩
      · exact absurd hvalue (hplus digits)
      · obtain rfl := (List.cons.inj h).2
        exact ⟨hdigits, hvalue⟩
  case h_2 hother =>
    rw [Text.hexValue?_eq_some_iff]
    constructor
    · rintro ⟨hdigits, hvalue⟩
      exact ⟨numeral, hdigits, hvalue, .inl rfl⟩
    · rintro ⟨digits, hdigits, hvalue, rfl | rfl⟩
      · exact ⟨hdigits, hvalue⟩
      · exact absurd rfl (hother digits)

/-- **Numerals.** A numeral is read as a word exactly if it is one of this word. -/
theorem wordOfNumeral?_eq_some_iff :
    wordOfNumeral? numeral = some word ↔ WordNumeral numeral word := by
  unfold wordOfNumeral?
  constructor
  · intro h
    split at h
    case isTrue hlength =>
      obtain ⟨value, hvalue, rfl⟩ := Option.map_eq_some_iff.mp h
      obtain ⟨digits, -, hdigits, hnumeral⟩ := numeralValue?_eq_some_iff.mp hvalue
      have hbytes := hdigits.byteLength_eq
      have hform : numeral = digits ∧ digits.length = 4 ∨
          numeral = '+' :: digits ∧ digits.length = 3 := by
        rcases hnumeral with rfl | rfl
        · -- four bytes are four digits, or a sign and three of them
          exact .inl ⟨rfl, hbytes ▸ hlength⟩
        · have hplus : '+'.utf8Size = 1 := rfl
          rw [Text.byteLength_cons, hplus, hbytes] at hlength
          exact .inr ⟨rfl, by omega⟩
      -- four digits are the value of a word
      have hvalue : value < 2 ^ 16 := by
        refine Nat.lt_of_lt_of_le hdigits.lt ?_
        rcases hform with ⟨-, hform⟩ | ⟨-, hform⟩ <;> rw [hform] <;> decide
      refine ⟨digits, ?_, hform⟩
      rwa [BitVec.toNat_ofNat, Nat.mod_eq_of_lt hvalue]
    case isFalse => cases h
  · rintro ⟨digits, hdigits, hform⟩
    -- four characters of a byte each
    have hbytes := hdigits.byteLength_eq
    have hlength : Text.byteLength numeral = 4 := by
      rcases hform with ⟨rfl, hform⟩ | ⟨rfl, hform⟩
      · rw [hbytes, hform]
      · rw [Text.byteLength_cons, hbytes, hform]
        rfl
    have hvalue : numeralValue? numeral = some word.toNat := by
      refine numeralValue?_eq_some_iff.mpr ⟨digits, ?_, hdigits, ?_⟩
      · rintro rfl
        simp at hform
      · exact hform.imp And.left And.left
    rw [if_pos hlength, hvalue, Option.map_some, BitVec.ofNat_toNat, BitVec.setWidth_eq]

/-! ### Texts -/

/-- What is on a line, without its comment and the white space around it. -/
def lineContent (line : List Char) : List Char :=
  Text.trim (withoutComment line)

/-- The numerals of a text are the lines with something on them. -/
theorem numerals_eq (text : List Char) :
    numerals text = ((Text.split '\n' text).map lineContent).filter (· ≠ []) := rfl

/-- The words of an image are those of the numerals of its text. -/
theorem ofText?_eq_some_iff {text : String} {image : Image} :
    ofText? text = some image ↔ List.Forall₂ WordNumeral (numerals text.toList) image.words := by
  have hwords : ∀ words, (numerals text.toList).mapM wordOfNumeral? = some words ↔
      List.Forall₂ WordNumeral (numerals text.toList) words := by
    intro words
    rw [mapM_eq_some_iff]
    exact ⟨fun h => h.imp fun _ _ => wordOfNumeral?_eq_some_iff.mp,
      fun h => h.imp fun _ _ => wordOfNumeral?_eq_some_iff.mpr⟩
  unfold ofText?
  rw [Option.map_eq_some_iff]
  constructor
  · -- a text is read if each of its numerals is
    rintro ⟨words, h, rfl⟩
    exact (hwords words).mp h
  · intro h
    exact ⟨image.words, (hwords _).mpr h, rfl⟩

/-- **Texts of images.** A text is read as an image exactly if on each of its lines there is nothing
    or the numeral of a word: four hexadecimal digits, or a plus sign and three of them. The words
    of the image are those of the numerals, in order. -/
theorem reads_ofText? (text : String) :
    ((ofText? text).isSome ↔ ∀ line ∈ Text.split '\n' text.toList,
      lineContent line = [] ∨ ∃ word, WordNumeral (lineContent line) word) ∧
    ∀ image, ofText? text = some image ↔ List.Forall₂ WordNumeral
      (((Text.split '\n' text.toList).map lineContent).filter (· ≠ [])) image.words := by
  refine ⟨?_, fun image => ofText?_eq_some_iff⟩
  have hread : (ofText? text).isSome ↔ ∃ words, List.Forall₂ WordNumeral (numerals text.toList)
      words := by
    rw [Option.isSome_iff_exists]
    exact ⟨fun ⟨image, h⟩ => ⟨image.words, ofText?_eq_some_iff.mp h⟩,
      fun ⟨words, h⟩ => ⟨⟨words⟩, ofText?_eq_some_iff.mpr h⟩⟩
  rw [hread, exists_forall₂_iff, numerals_eq]
  constructor
  · intro h line hline
    by_cases hempty : lineContent line = []
    · exact .inl hempty
    · exact .inr (h _ (List.mem_filter.mpr ⟨List.mem_map_of_mem hline, decide_eq_true hempty⟩))
  · intro h numeral hnumeral
    obtain ⟨hmem, hnonempty⟩ := List.mem_filter.mp hnumeral
    obtain ⟨line, hline, rfl⟩ := List.mem_map.mp hmem
    exact (h line hline).resolve_left (of_decide_eq_true hnonempty)

/-- A plus sign in place of a digit is not refused. -/
theorem ofText?_plus :
    ofText? "+123\n" = some ⟨[0x123#16]⟩ ∧
    ¬ ∀ line ∈ Text.split '\n' "+123\n".toList, lineContent line = [] ∨
      (lineContent line).length = 4 ∧
        (lineContent line).all fun c => (Text.hexDigitValue? c).isSome := by
  decide

end Image

end LC3
