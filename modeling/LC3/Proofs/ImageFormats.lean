import LC3.Image.Binary
import LC3.Proofs.ImageText
import LC3.Proofs.LetterCase

namespace LC3

/-!
# Images read back

An image that is written as bytes or as text is read back as it was. The bytes of an image are all
sequences of an even length. The text may be decorated before it is read: with blank lines, white
space around words, comments, digits in lower case and other line ends.

* `Image.ofBytes?_eq_some_iff` — which bytes are read, and as which image.
* `Image.DecoratedLine`, `Image.Decorated` — the texts that words can be written as.
* `Image.Decorated.forall₂_numerals` — the numerals of all of them are those of these words.
* `Image.formats_round_trip` — both formats read back what they write.
-/

/-! ### Pieces of texts -/

namespace Text

variable {before middle after : List Char}

/-- White space around a text without any is taken away. -/
theorem trim_padded (hbefore : ∀ c ∈ before, isWhiteSpace c)
    (hmiddle : ∀ c ∈ middle, isWhiteSpace c = false) (hafter : ∀ c ∈ after, isWhiteSpace c) :
    trim (before ++ middle ++ after) = middle := by
  -- nothing is dropped from the text in the middle, from either end
  have hstays : ∀ {text : List Char}, (∀ c ∈ text, isWhiteSpace c = false) →
      text.dropWhile isWhiteSpace = text := by
    intro text htext
    cases text with
    | nil => rfl
    | cons c text => exact List.dropWhile_cons_of_neg (by simp [htext c])
  have hbehind : ∀ c ∈ after.reverse, isWhiteSpace c :=
    fun c hc => hafter c (List.mem_reverse.mp hc)
  have hkept : ∀ c ∈ middle.reverse, isWhiteSpace c = false :=
    fun c hc => hmiddle c (List.mem_reverse.mp hc)
  unfold trim
  rw [List.append_assoc, List.dropWhile_append_of_pos hbefore]
  -- an empty text in the middle is all white space, and else its ends keep what is around it apart
  cases middle with
  | nil =>
    rw [List.nil_append, List.dropWhile_eq_nil_iff.mpr hafter]
    rfl
  | cons c middle =>
    have hfirst : (c :: middle ++ after).dropWhile isWhiteSpace = c :: middle ++ after :=
      List.dropWhile_cons_of_neg (by simp [hmiddle c List.mem_cons_self])
    rw [hfirst, List.reverse_append, List.dropWhile_append_of_pos hbehind, hstays hkept,
      List.reverse_reverse]

end Text

namespace Image

/-! ### Bytes -/

variable {words : List Word} {bytes : List UInt8}

/-- A word is made of its two bytes. -/
private theorem wordOfBytes_wordBytes (word : Word) :
    wordOfBytes ⟨word.extractLsb' 8 8⟩ ⟨word.extractLsb' 0 8⟩ = word := by
  refine BitVec.eq_of_getLsbD_eq fun i hi => ?_
  show (word.extractLsb' 8 8 ++ word.extractLsb' 0 8).getLsbD i = _
  rw [BitVec.getLsbD_append]
  by_cases hlow : i < 8
  · simp [hlow]
  · simp [hlow, show i - 8 < 8 by omega, show 8 + (i - 8) = i by omega]

/-- Two bytes are those of the word that they make. -/
private theorem wordBytes_wordOfBytes (high low : UInt8) :
    wordBytes (wordOfBytes high low) = [high, low] := by
  have hhigh : (high.toBitVec ++ low.toBitVec).extractLsb' 8 8 = high.toBitVec :=
    BitVec.extractLsb'_append_eq_left
  have hlow : (high.toBitVec ++ low.toBitVec).extractLsb' 0 8 = low.toBitVec :=
    BitVec.extractLsb'_append_eq_right
  rw [wordBytes, wordOfBytes, hhigh, hlow]

/-- Bytes are read as the words that have them. -/
theorem wordsOfBytes?_eq_some_iff :
    wordsOfBytes? bytes = some words ↔ words.flatMap wordBytes = bytes := by
  constructor
  · intro h
    -- the words are read from two bytes each, so the induction follows the reader
    fun_induction wordsOfBytes? bytes generalizing words with
    | case1 =>
      obtain rfl := Option.some.inj h
      rfl
    | case2 => cases h
    | case3 high low bytes ih =>
      obtain ⟨rest, hrest, rfl⟩ := Option.map_eq_some_iff.mp h
      rw [List.flatMap_cons, wordBytes_wordOfBytes, ih hrest]
      rfl
  · rintro rfl
    induction words with
    | nil => rfl
    | cons word words ih =>
      show (wordsOfBytes? (words.flatMap wordBytes)).map _ = _
      rw [ih, wordOfBytes_wordBytes]
      rfl

/-- An even number of bytes is read. -/
theorem isSome_wordsOfBytes?_iff : (wordsOfBytes? bytes).isSome ↔ bytes.length % 2 = 0 := by
  fun_induction wordsOfBytes? bytes with
  | case1 => simp
  | case2 => simp
  | case3 high low bytes ih =>
    rw [Option.isSome_map, ih, List.length_cons, List.length_cons]
    omega

/-- **Bytes of images.** Bytes are read as the image that has them. -/
theorem ofBytes?_eq_some_iff {image : Image} :
    ofBytes? bytes = some image ↔ image.toBytes = bytes := by
  unfold ofBytes?
  rw [Option.map_eq_some_iff]
  constructor
  · rintro ⟨words, hwords, rfl⟩
    exact wordsOfBytes?_eq_some_iff.mp hwords
  · intro h
    exact ⟨image.words, wordsOfBytes?_eq_some_iff.mpr h, rfl⟩

/-! ### Numerals of words -/

/-- The digits of a word are worth the word. -/
theorem numeral_hexDigits (word : Word) :
    Text.Numeral 16 Text.hexDigitValue? 0 word.hexDigits word.toNat := by
  have hdigit : ∀ low, Text.hexDigitValue? (Text.hexDigit (word.extractLsb' low 4).toNat) =
      some (word.extractLsb' low 4).toNat :=
    fun low => Text.hexDigitValue?_hexDigit (word.extractLsb' low 4).isLt
  refine ⟨[(word.extractLsb' 12 4).toNat, (word.extractLsb' 8 4).toNat,
    (word.extractLsb' 4 4).toNat, (word.extractLsb' 0 4).toNat], ?_, ?_⟩
  · simp only [Word.hexDigits, List.map_cons, List.map_nil, hdigit]
  · have hword : word.toNat < 65536 := word.isLt
    simp only [List.foldl_cons, List.foldl_nil, BitVec.extractLsb'_toNat,
      Nat.shiftRight_eq_div_pow]
    omega

section Digits

variable {word : Word} {digits : List Char}

/-- They are so in lower case, too. -/
theorem numeral_of_sameLetters (h : SameLetters word.hexDigits digits) :
    Text.Numeral 16 Text.hexDigitValue? 0 digits word.toNat := by
  rw [← Text.hexValueFrom?_eq_some_iff, h.hexValueFrom?_eq, Text.hexValueFrom?_eq_some_iff]
  exact numeral_hexDigits word

/-- The digits of a word in either case are a numeral of it. -/
theorem wordNumeral_of_sameLetters (h : SameLetters word.hexDigits digits) :
    WordNumeral digits word := by
  refine ⟨digits, numeral_of_sameLetters h, .inl ⟨rfl, ?_⟩⟩
  have hlength := congrArg List.length h
  rwa [List.length_map, List.length_map, Word.length_hexDigits] at hlength

/-- Digits are neither white space nor slashes. -/
theorem plain_of_sameLetters (h : SameLetters word.hexDigits digits) :
    ∀ c ∈ digits, Text.isWhiteSpace c = false ∧ c ≠ '/' := by
  intro c hc
  obtain ⟨digit, hdigit⟩ := (numeral_of_sameLetters h).exists_digit c hc
  exact Text.of_hexDigitValue? (P := fun c _ => Text.isWhiteSpace c = false ∧ c ≠ '/')
    (by decide +kernel) hdigit

end Digits

/-! ### Decorated texts -/

/-- White space that does not end a line. -/
def IsPadding (padding : List Char) : Prop :=
  ∀ c ∈ padding, Text.isWhiteSpace c ∧ c ≠ '\n'

instance (padding : List Char) : Decidable (IsPadding padding) :=
  List.decidableBAll (fun c => Text.isWhiteSpace c ∧ c ≠ '\n') padding

/-- A comment up to the end of its line, or nothing. -/
def IsComment (comment : List Char) : Prop :=
  comment = [] ∨ ∃ text, comment = '/' :: '/' :: text ∧ '\n' ∉ text

/-- A line with at most one word on it: blank, or with white space around the digits of the word in
    either case, and with a comment or without. -/
inductive DecoratedLine : List Char → List Word → Prop where
  | blank {padding comment : List Char} (hpadding : IsPadding padding)
    (hcomment : IsComment comment) : DecoratedLine (padding ++ comment) []
  | word {before digits after comment : List Char} {word : Word} (hbefore : IsPadding before)
    (hdigits : SameLetters word.hexDigits digits) (hafter : IsPadding after)
    (hcomment : IsComment comment) : DecoratedLine (before ++ digits ++ after ++ comment) [word]

/-- A text with some words, on lines of either end; the last line may have none. -/
inductive Decorated : List Char → List Word → Prop where
  | last {line : List Char} {words : List Word} (hline : DecoratedLine line words) :
    Decorated line words
  | line {line ending text : List Char} {words others : List Word}
    (hline : DecoratedLine line words) (hending : ending ∈ [['\n'], ['\r', '\n']])
    (htext : Decorated text others) : Decorated (line ++ ending ++ text) (words ++ others)

section Lines

variable {front comment line text : List Char} {words others : List Word}

/-- What is in front of a comment is left. -/
theorem withoutComment_append (hfront : '/' ∉ front) (hcomment : IsComment comment) :
    withoutComment (front ++ comment) = front := by
  induction front with
  | nil =>
    rcases hcomment with rfl | ⟨text, rfl, -⟩ <;> rfl
  | cons c front ih =>
    obtain ⟨hc, hfront⟩ := not_or.mp (List.mem_cons.not.mp hfront)
    rw [List.cons_append, withoutComment, ih hfront]
    rintro text rfl
    exact absurd rfl hc

/-- White space has no slash. -/
theorem IsPadding.slash_notMem (h : IsPadding front) : '/' ∉ front := by
  intro hmem
  have hslash := (h _ hmem).1
  revert hslash
  decide

/-- White space on a line has no line break. -/
theorem IsPadding.linebreak_notMem (h : IsPadding front) : '\n' ∉ front :=
  fun hmem => (h _ hmem).2 rfl

/-- A comment ends with its line. -/
theorem IsComment.linebreak_notMem (h : IsComment comment) : '\n' ∉ comment := by
  rcases h with rfl | ⟨text, rfl, htext⟩
  · exact List.not_mem_nil
  · simp [htext]

/-- A carriage return is white space on its line. -/
theorem IsPadding.append_return (h : IsPadding front) : IsPadding (front ++ ['\r']) := by
  intro c hc
  rcases List.mem_append.mp hc with hc | hc
  · exact h c hc
  · obtain rfl := List.mem_singleton.mp hc
    decide

/-- A carriage return behind a comment belongs to it, if there is one. -/
theorem IsComment.append_return (h : IsComment comment) :
    comment = [] ∨ IsComment (comment ++ ['\r']) := by
  rcases h with rfl | ⟨text, rfl, htext⟩
  · exact .inl rfl
  · exact .inr (.inr ⟨text ++ ['\r'], rfl, by simp [htext]⟩)

/-- A carriage return is more white space, or it belongs to the comment. -/
theorem DecoratedLine.append_return (h : DecoratedLine line words) :
    DecoratedLine (line ++ ['\r']) words := by
  cases h with
  | blank hpadding hcomment =>
    rcases hcomment.append_return with rfl | hcomment
    · rw [List.append_nil, ← List.append_nil (_ ++ ['\r'])]
      exact .blank hpadding.append_return (.inl rfl)
    · rw [List.append_assoc]
      exact .blank hpadding hcomment
  | word hbefore hdigits hafter hcomment =>
    rcases hcomment.append_return with rfl | hcomment
    · rw [List.append_nil, List.append_assoc, ← List.append_nil (_ ++ (_ ++ ['\r']))]
      exact .word hbefore hdigits hafter.append_return (.inl rfl)
    · rw [List.append_assoc]
      exact .word hbefore hdigits hafter hcomment

/-- A decorated line is one line. -/
theorem DecoratedLine.linebreak_notMem (h : DecoratedLine line words) : '\n' ∉ line := by
  cases h with
  | blank hpadding hcomment =>
    simp [hpadding.linebreak_notMem, hcomment.linebreak_notMem]
  | word hbefore hdigits hafter hcomment =>
    have hplain : ∀ digits : List Char, (∀ c ∈ digits, Text.isWhiteSpace c = false ∧ c ≠ '/') →
        '\n' ∉ digits := by
      intro digits hplain hmem
      cases (hplain _ hmem).1
    simp [hbefore.linebreak_notMem, hplain _ (plain_of_sameLetters hdigits),
      hafter.linebreak_notMem, hcomment.linebreak_notMem]

/-- A line with a word has the numeral of this word on it, and a blank line has nothing. -/
theorem DecoratedLine.forall₂_content (h : DecoratedLine line words) :
    List.Forall₂ WordNumeral ([lineContent line].filter (· ≠ [])) words := by
  cases h with
  | @blank padding comment hpadding hcomment =>
    have hcontent : lineContent (padding ++ comment) = [] := by
      unfold lineContent
      rw [withoutComment_append hpadding.slash_notMem hcomment]
      have htrim : Text.trim (padding ++ [] ++ []) = [] :=
        Text.trim_padded (fun c hc => (hpadding c hc).1) nofun nofun
      rwa [List.append_nil, List.append_nil] at htrim
    rw [hcontent]
    exact .nil
  | @word before digits after comment word hbefore hdigits hafter hcomment =>
    have hplain := plain_of_sameLetters hdigits
    have hslash : '/' ∉ before ++ digits ++ after := by
      have hdigit : '/' ∉ digits := fun hmem => (hplain _ hmem).2 rfl
      simp [hbefore.slash_notMem, hdigit, hafter.slash_notMem]
    have hcontent : lineContent (before ++ digits ++ after ++ comment) = digits := by
      unfold lineContent
      rw [withoutComment_append hslash hcomment]
      exact Text.trim_padded (fun c hc => (hbefore c hc).1) (fun c hc => (hplain c hc).1)
        fun c hc => (hafter c hc).1
    have hword := wordNumeral_of_sameLetters hdigits
    have hdigits : digits ≠ [] := by
      rintro rfl
      cases hdigits
    rw [hcontent, List.filter_cons_of_pos (by simpa using hdigits)]
    exact .cons hword .nil

/-- The numerals of a text are those of its first line and those of the others. -/
theorem numerals_append (h : '\n' ∉ line) :
    numerals (line ++ '\n' :: text) = [lineContent line].filter (· ≠ []) ++ numerals text := by
  rw [numerals_eq, numerals_eq, Text.split_append h, List.map_cons, ← List.singleton_append,
    List.filter_append]

/-- A line has one numeral at most. -/
theorem numerals_of_notMem (h : '\n' ∉ line) :
    numerals line = [lineContent line].filter (· ≠ []) := by
  rw [numerals_eq, Text.split_of_notMem h]
  rfl

/-- The numerals of a decorated text are those of its words. -/
theorem Decorated.forall₂_numerals (h : Decorated text words) :
    List.Forall₂ WordNumeral (numerals text) words := by
  induction h with
  | last hline =>
    rw [numerals_of_notMem hline.linebreak_notMem]
    exact hline.forall₂_content
  | @line line ending text words others hline hending htext ih =>
    -- a carriage return in front of a line break belongs to the line
    obtain ⟨line', hline', hsame⟩ : ∃ line', DecoratedLine line' words ∧
        line ++ ending ++ text = line' ++ '\n' :: text := by
      simp only [List.mem_cons, List.not_mem_nil, or_false] at hending
      rcases hending with rfl | rfl
      · exact ⟨line, hline, by simp⟩
      · exact ⟨line ++ ['\r'], hline.append_return, by simp⟩
    rw [hsame, numerals_append hline'.linebreak_notMem]
    exact List.rel_append hline'.forall₂_content ih

end Lines

/-- What an image is written as is one of these texts. -/
theorem decorated_toText (image : Image) : Decorated image.toText.toList image.words := by
  rw [toText, String.toList_ofList]
  generalize image.words = words
  induction words with
  | nil =>
    have hblank : DecoratedLine ([] ++ []) [] := .blank nofun (.inl rfl)
    exact .last hblank
  | cons word words ih =>
    have hline : DecoratedLine ([] ++ word.hexDigits ++ [] ++ []) [word] :=
      .word nofun rfl nofun (.inl rfl)
    exact .line hline List.mem_cons_self ih

/-- **Images are read back.** An image is read back from its bytes and from its text, and from any
    text that is made of the latter by decoration: blank lines, white space around words, comments,
    digits in lower case and other line ends. All sequences of an even number of bytes, and no
    others, are those of an image. -/
theorem formats_round_trip (image : Image) :
    ofBytes? image.toBytes = some image ∧ ofText? image.toText = some image ∧
    (∀ bytes, (ofBytes? bytes).isSome ↔ bytes.length % 2 = 0) ∧
    (∀ bytes, ofBytes? bytes = some image → image.toBytes = bytes) ∧
    Decorated image.toText.toList image.words ∧
    ∀ text, Decorated text image.words → ofText? (String.ofList text) = some image := by
  have hdecorated : ∀ text, Decorated text image.words →
      ofText? (String.ofList text) = some image := by
    intro text htext
    rw [ofText?_eq_some_iff, String.toList_ofList]
    exact htext.forall₂_numerals
  refine ⟨ofBytes?_eq_some_iff.mpr rfl, ?_, fun bytes => ?_, fun bytes => ofBytes?_eq_some_iff.mp,
    decorated_toText image, hdecorated⟩
  · -- the text of the image is a decorated one, with no decoration
    have hread := hdecorated _ (decorated_toText image)
    rwa [String.ofList_toList] at hread
  · rw [ofBytes?, Option.isSome_map, isSome_wordsOfBytes?_iff]

/-- Two words with all of the decorations between them. -/
theorem formats_round_trip_decorated :
    ofText? " 3000// /\r\n\t\naBcD" = some ⟨[0x3000#16, 0xABCD#16]⟩ := by
  have hfirst : DecoratedLine ([' '] ++ ['3', '0', '0', '0'] ++ [] ++ ['/', '/', ' ', '/'])
      [0x3000#16] :=
    .word (by decide) (by decide) nofun (.inr ⟨_, rfl, by decide⟩)
  have hsecond : DecoratedLine (['\t'] ++ []) [] := .blank (by decide) (.inl rfl)
  have hthird : DecoratedLine ([] ++ ['a', 'B', 'c', 'D'] ++ [] ++ []) [0xABCD#16] :=
    .word nofun (by decide) nofun (.inl rfl)
  have hdecorated : Decorated [' ', '3', '0', '0', '0', '/', '/', ' ', '/', '\r', '\n', '\t', '\n',
      'a', 'B', 'c', 'D'] [0x3000#16, 0xABCD#16] :=
    .line hfirst (List.mem_cons_of_mem _ (List.mem_singleton_self ['\r', '\n']))
      (.line hsecond List.mem_cons_self (.last hthird))
  exact (formats_round_trip ⟨[0x3000#16, 0xABCD#16]⟩).2.2.2.2.2 _ hdecorated

end Image

end LC3
