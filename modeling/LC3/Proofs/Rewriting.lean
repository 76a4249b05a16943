import LC3.Proofs.LetterCase
import LC3.Proofs.Scanning

namespace LC3

/-!
# Rewritten words

A source in which some words are written in another case, or with their letters in another order,
has the tokens of the old one at the same places. Only the texts of these words are other ones.

* `Text.Rewritten` — a text in which words are replaced at their places.
* `SameWord` — what a word and the one in its place have in common.
* `Lexical.Splits.rewritten` — how a rewritten text falls into spans.
-/

/-! ### Replacing words -/

/-- Whether a text comes from another one by replacing words in it. Which word can take the place of
    another one may depend on the text in front of it. -/
inductive Text.Rewritten (replaces : List Char → List Char → List Char → Prop) :
    List Char → List Char → List Char → Prop where
  | nil {before : List Char} : Rewritten replaces before [] []
  | keep {before : List Char} {c : Char} {text text' : List Char}
    (h : Rewritten replaces (before ++ [c]) text text') :
    Rewritten replaces before (c :: text) (c :: text')
  | word {before word word' text text' : List Char} (hword : replaces before word word')
    (h : Rewritten replaces (before ++ word) text text') :
    Rewritten replaces before (word ++ text) (word' ++ text')

/-- Whether a word has the same letters as another one in any case, and starts with the same one. -/
structure SameWord (word word' : List Char) : Prop where
  head : word'.head?.map Char.toUpper = word.head?.map Char.toUpper
  letters : (word'.map Char.toUpper).Perm (word.map Char.toUpper)

/-- Whether a text starts with a character that has some property does not depend on case, if the
    property does not. -/
private theorem forall_head?_iff {p : Char → Bool} {value : Bool} {text text' : List Char}
    (hp : ∀ c : Char, p c.toUpper = p c)
    (h : text'.head?.map Char.toUpper = text.head?.map Char.toUpper) :
    (∀ c ∈ text'.head?, p c = value) ↔ ∀ c ∈ text.head?, p c = value := by
  cases text with
  | nil =>
    cases text' with
    | nil => rfl
    | cons d text' => cases h
  | cons c text =>
    cases text' with
    | nil => cases h
    | cons d text' =>
      have hcd : d.toUpper = c.toUpper := Option.some.inj h
      simp [← hp d, ← hp c, hcd]

/-- Whether a text starts with a given character that has no case. -/
private theorem forall_head?_eq_iff {sign : Char} {text text' : List Char}
    (hsign : ∀ c : Char, decide (c.toUpper = sign) = decide (c = sign))
    (h : text'.head?.map Char.toUpper = text.head?.map Char.toUpper) :
    (∀ c ∈ text'.head?, c = sign) ↔ ∀ c ∈ text.head?, c = sign := by
  have hiff := @forall_head?_iff (fun c => decide (c = sign)) true text text' hsign h
  simpa using hiff

namespace SameWord

variable {word word' : List Char}

/-- Both words take as many bytes. -/
theorem byteLength_eq (h : SameWord word word') :
    Text.byteLength word' = Text.byteLength word := by
  -- neither the case of letters nor their order changes how many bytes they take
  have hupper : ∀ text : List Char,
      Text.byteLength (text.map Char.toUpper) = Text.byteLength text := by
    intro text
    induction text with
    | nil => rfl
    | cons c text ih => simp [utf8Size_toUpper, ih]
  have hperm : ∀ {text text' : List Char}, text.Perm text' →
      Text.byteLength text = Text.byteLength text' := by
    intro text text' h
    induction h with
    | nil => rfl
    | cons c _ ih => simp [ih]
    | swap c d text => simp only [Text.byteLength_cons]; omega
    | trans _ _ ih ih' => exact ih.trans ih'
  rw [← hupper word', ← hupper word, hperm h.letters]

/-- If one of them is spelled as a word, so is the other, in front of a text that starts alike. -/
theorem spelled {text behind behind' : List Char} (h : SameWord word word')
    (hspelled : Lexical.Spelled .word word text behind)
    (hbehind : behind'.head?.map Char.toUpper = behind.head?.map Char.toUpper) :
    Lexical.Spelled .word word' word' behind' := by
  -- all the letters of one are parts of words if those of the other are
  have hparts : (∀ c ∈ word, Lexeme.isWordPart c = true) →
      ∀ c ∈ word', Lexeme.isWordPart c = true := by
    intro hword c hc
    have hmem := h.letters.subset (List.mem_map_of_mem hc)
    obtain ⟨d, hd, hsame⟩ := List.mem_map.mp hmem
    rw [← isWordPart_toUpper c, ← hsame, isWordPart_toUpper d]
    exact hword d hd
  cases hspelled with
  | mark hmark =>
    have hnone : ∀ mark ∈ Lexical.marks, mark.2 ≠ .word := by decide
    exact absurd rfl (hnone _ hmark)
  | @word c rest _ hc hrest hend =>
    -- the first letter may start a word, and the others are in some order
    cases word' with
    | nil => exact absurd h.head (by simp)
    | cons d rest' =>
      have hcd : d.toUpper = c.toUpper := by simpa using h.head
      have hd : Lexeme.isWordStart d = true := by
        rw [← isWordStart_toUpper d, hcd, isWordStart_toUpper, hc]
      have hall := hparts (List.forall_mem_cons.mpr ⟨Lexeme.isWordPart_of_isWordStart hc, hrest⟩)
      exact .word hd (List.forall_mem_cons.mp hall).2
        ((forall_head?_iff isWordPart_toUpper hbehind).mpr hend)

end SameWord

/-! ### What stands behind a token -/

namespace Lexical

variable {behind behind' : List Char}

/-- What ends a line does so in any case. -/
private theorem atLineEnd_iff (h : behind'.head?.map Char.toUpper = behind.head?.map Char.toUpper) :
    AtLineEnd behind' ↔ AtLineEnd behind :=
  forall_head?_eq_iff (apply_toUpper (f := fun c => decide (c = '\n')) (by decide +kernel)) h

/-- A gap stays one in front of a text that starts alike. -/
theorem Gap.congr {gap : List Char} (h : Gap gap behind)
    (hbehind : behind'.head?.map Char.toUpper = behind.head?.map Char.toUpper) :
    Gap gap behind' := by
  induction h with
  | nil => exact .nil
  | blank hc h ih => exact .blank hc (ih hbehind)
  | comment htext hend => exact .comment htext ((atLineEnd_iff hbehind).mpr hend)

/-- So does a token. -/
theorem Spelled.congr {kind : TokenKind} {raw text : List Char}
    (h : Spelled kind raw text behind)
    (hbehind : behind'.head?.map Char.toUpper = behind.head?.map Char.toUpper) :
    Spelled kind raw text behind' := by
  cases h with
  | mark hmark => exact .mark hmark
  | number hc htext hend =>
    -- where the digits end is told by the next character
    have halphanum : ∀ c : Char, c.toUpper.isAlphanum = c.isAlphanum :=
      apply_toUpper (f := Char.isAlphanum) (by decide +kernel)
    exact .number hc htext ((forall_head?_iff halphanum hbehind).mpr hend)
  | word hc htext hend =>
    exact .word hc htext ((forall_head?_iff isWordPart_toUpper hbehind).mpr hend)
  | string hquote hbody => exact .string hquote hbody
  | unclosed hquote hbody hend =>
    exact .unclosed hquote hbody ((atLineEnd_iff hbehind).mpr hend)
  | stray hblank hsign hmark hmore => exact .stray hblank hsign hmark hmore

end Lexical

/-! ### Texts with replaced words -/

namespace Text.Rewritten

variable {replaces : List Char → List Char → List Char → Prop} {before text text' : List Char}

/-- A rewritten text starts with the same letter. -/
theorem head?_eq (h : Rewritten replaces before text text')
    (hword : ∀ place word word', replaces place word word' → SameWord word word') :
    text'.head?.map Char.toUpper = text.head?.map Char.toUpper := by
  induction h with
  | nil => rfl
  | keep => rfl
  | @word before word word' text text' hreplaces _ ih =>
    obtain ⟨hhead, hletters⟩ := hword _ _ _ hreplaces
    cases word with
    | nil =>
      have hnil : word' = [] := by simpa using hletters.length_eq
      rw [hnil]
      exact ih
    | cons c word =>
      cases word' with
      | nil => cases hhead
      | cons d word' => exact hhead

/-- Where no word is replaced a text stays as it is. -/
theorem exists_append (first : List Char) {rest : List Char}
    (h : Rewritten replaces before (first ++ rest) text')
    (hnone : ∀ place word word', replaces place word word' →
      byteLength before ≤ byteLength place → byteLength (before ++ first) ≤ byteLength place) :
    ∃ rest', text' = first ++ rest' ∧ Rewritten replaces (before ++ first) rest rest' := by
  induction first generalizing before text' with
  | nil => exact ⟨text', rfl, by simpa using h⟩
  | cons c first ih =>
    generalize htext : c :: first ++ rest = text at h
    cases h with
    | nil => cases htext
    | @keep _ d tail tail' h =>
      obtain ⟨rfl, rfl⟩ := List.cons.inj htext
      have hnone' : ∀ place word word', replaces place word word' →
          byteLength (before ++ [c]) ≤ byteLength place →
            byteLength (before ++ [c] ++ first) ≤ byteLength place := by
        intro place word word' hword hplace
        have hbound := hnone place word word' hword (by simp at hplace; omega)
        simpa using hbound
      obtain ⟨rest', rfl, hrest⟩ := ih h hnone'
      exact ⟨rest', rfl, by simpa using hrest⟩
    | word hword _ =>
      -- the first character would belong to a word that is replaced
      have hbound := hnone _ _ _ hword (Nat.le_refl _)
      have hpos := c.utf8Size_pos
      simp only [byteLength_append, byteLength_cons] at hbound
      omega

/-- Where no word is replaced any more a text is the same to its end. -/
theorem eq_self (h : Rewritten replaces before text text')
    (hnone : ∀ place word word', replaces place word word' →
      byteLength place < byteLength before) : text' = text := by
  induction h with
  | nil => rfl
  | @keep before c _ _ _ ih =>
    have hnone' : ∀ place word word', replaces place word word' →
        byteLength place < byteLength (before ++ [c]) := by
      intro place word word' hword
      rw [byteLength_append]
      exact Nat.lt_add_right _ (hnone place word word' hword)
    rw [ih hnone']
  | word hword => exact absurd (hnone _ _ _ hword) (Nat.lt_irrefl _)

/-- A text that stays as it is for a while. -/
theorem append {first rest rest' : List Char}
    (h : Rewritten replaces (before ++ first) rest rest') :
    Rewritten replaces before (first ++ rest) (first ++ rest') := by
  induction first generalizing before with
  | nil => simpa using h
  | cons c first ih => exact .keep (ih (by simpa using h))

/-- A text whose pieces are kept or replaced, one by one. -/
theorem of_pieces {pieces : List (List Char × List Char)}
    (h : ∀ i (hi : i < pieces.length), pieces[i].2 = pieces[i].1 ∨
      replaces (before ++ (pieces.take i).flatMap Prod.fst) pieces[i].1 pieces[i].2) :
    Rewritten replaces before (pieces.flatMap Prod.fst) (pieces.flatMap Prod.snd) := by
  induction pieces generalizing before with
  | nil => exact .nil
  | cons piece pieces ih =>
    have hrest : Rewritten replaces (before ++ piece.1) (pieces.flatMap Prod.fst)
        (pieces.flatMap Prod.snd) :=
      ih fun i hi => by simpa using h (i + 1) (Nat.succ_lt_succ hi)
    rw [List.flatMap_cons, List.flatMap_cons]
    rcases h 0 (Nat.zero_lt_succ _) with hkept | hreplaced
    · simp only [List.getElem_cons_zero] at hkept
      rw [hkept]
      exact hrest.append
    · exact .word (by simpa using hreplaced) hrest

end Text.Rewritten

/-! ### Tokens of rewritten texts -/

/-- Whether a token takes the place of another one when words are replaced: it is the same, or it is
    a word that replaces the other one. -/
structure Token.Rewritten (replaces : List Char → List Char → List Char → Prop)
    (token other : Token) : Prop where
  kind : other.kind = token.kind
  location : other.location = token.location
  text : other.text = token.text ∨ token.kind = .word ∧ ∃ place,
    token.location = .after place ∧ replaces place token.text.toList other.text.toList

namespace Lexical

variable {replaces : List Char → List Char → List Char → Prop}
  {before before' text text' : List Char}

/-- A token is kept, or it is a word that is replaced as a whole. -/
private theorem Spelled.exists_rewritten {kind : TokenKind} {raw behind : List Char}
    (h : Spelled kind raw text behind)
    (hrewritten : Text.Rewritten replaces before (raw ++ behind) text')
    (hplace : ∀ place word word', replaces place word word' →
      Text.byteLength before ≤ Text.byteLength place →
        Text.byteLength place = Text.byteLength before ∧ kind = .word ∧ text = word ∨
        Text.byteLength (before ++ raw) ≤ Text.byteLength place) :
    ∃ raw' behind', text' = raw' ++ behind' ∧
      Text.Rewritten replaces (before ++ raw) behind behind' ∧
      (raw' = raw ∨ kind = .word ∧ text = raw ∧ replaces before raw raw') := by
  have hraw := Text.byteLength_pos h.ne_nil
  generalize htext : raw ++ behind = whole at hrewritten
  cases hrewritten with
  | nil => exact absurd (List.append_eq_nil_iff.mp htext).1 h.ne_nil
  | @keep _ c tail tail' hrest =>
    -- the first character is kept, so no word begins here, and none does inside of the token
    cases raw with
    | nil => exact absurd rfl h.ne_nil
    | cons d raw =>
      obtain ⟨rfl, rfl⟩ := List.cons.inj htext
      obtain ⟨behind', rfl, hbehind⟩ := hrest.exists_append raw (by
        intro place word word' hword hbound
        have hpos := d.utf8Size_pos
        simp only [Text.byteLength_append, Text.byteLength_cons, Text.byteLength_nil] at hbound
        rcases hplace place word word' hword (by omega) with ⟨hsame, -⟩ | hlater
        · omega
        · simpa using hlater)
      exact ⟨d :: raw, behind', rfl, by simpa using hbehind, .inl rfl⟩
  | @word _ word word' tail tail' hword hrest =>
    rcases hplace before word word' hword (Nat.le_refl _) with ⟨-, hkind, rfl⟩ | hlater
    · obtain rfl : text = raw := h.eq_raw (by rw [hkind]; decide)
      obtain rfl := List.append_cancel_left htext
      exact ⟨word', tail', rfl, hrest, .inr ⟨hkind, rfl, hword⟩⟩
    · -- a word that begins behind the token does not begin here
      rw [Text.byteLength_append] at hlater
      omega

/-- What takes the place of a token is spelled as one of its kind. -/
private theorem Spelled.exists_replaced {kind : TokenKind} {raw raw' behind behind' : List Char}
    (h : Spelled kind raw text behind)
    (hsame : ∀ place word word', replaces place word word' → SameWord word word')
    (hbehind : behind'.head?.map Char.toUpper = behind.head?.map Char.toUpper)
    (hraw : raw' = raw ∨ kind = .word ∧ text = raw ∧ replaces before raw raw') :
    ∃ text', Spelled kind raw' text' behind' ∧
      Text.byteLength raw' = Text.byteLength raw ∧
        (text' = text ∨ kind = .word ∧ replaces before text text') := by
  rcases hraw with rfl | ⟨rfl, rfl, hword⟩
  · exact ⟨text, h.congr hbehind, rfl, .inl rfl⟩
  · have hsame' := hsame _ _ _ hword
    exact ⟨raw', hsame'.spelled h hbehind, hsame'.byteLength_eq, .inr ⟨rfl, hword⟩⟩

/-- A gap only moves a place along its line, wherever that is. -/
private theorem Gap.after_eq {gap behind : List Char} (h : Gap gap behind)
    (hlocation : Location.after before' = .after before) :
    Location.after (before' ++ gap) = .after (before ++ gap) := by
  rw [Location.after_append before h.linebreak_notMem,
    Location.after_append before' h.linebreak_notMem, hlocation]

/-- Whether all words that are replaced behind some text are among spans. -/
def Covers (replaces : List Char → List Char → List Char → Prop) (before : List Char)
    (spans : List Span) : Prop :=
  ∀ place word word', replaces place word word' →
    Text.byteLength before ≤ Text.byteLength place → ∃ span ∈ spans,
      span.start = Text.byteLength place ∧ span.token.kind = .word ∧
        span.token.text.toList = word

section Covers

variable {kind : TokenKind} {gap raw behind : List Char} {spans : List Span} {last : Token}

/-- Behind the last token no word is replaced. -/
private theorem Covers.lt_of_nil (h : Covers replaces before []) {place word word' : List Char}
    (hword : replaces place word word') : Text.byteLength place < Text.byteLength before := by
  by_contra hplace
  obtain ⟨span, hmem, -⟩ := h place word word' hword (Nat.le_of_not_lt hplace)
  exact absurd hmem List.not_mem_nil

/-- A word that is replaced is the next token, or it stands behind that one. -/
private theorem Covers.next_or_later
    (h : Covers replaces before
      (⟨⟨kind, .ofList text, .after (before ++ gap)⟩, Text.byteLength (before ++ gap ++ raw)⟩ ::
        spans))
    (hsplits : Splits (before ++ gap ++ raw) behind spans last) {place word word' : List Char}
    (hword : replaces place word word') (hplace : Text.byteLength before ≤ Text.byteLength place) :
    Text.byteLength place = Text.byteLength (before ++ gap) ∧ kind = .word ∧ text = word ∨
      Text.byteLength (before ++ gap ++ raw) ≤ Text.byteLength place := by
  obtain ⟨span, hmem, hstart, hkind, htext⟩ := h place word word' hword hplace
  rcases List.mem_cons.mp hmem with rfl | hmem
  · exact .inl ⟨hstart.symm, hkind, by simpa using htext⟩
  · exact .inr (hstart ▸ (hsplits.bounds.2 span hmem).1)

/-- The words that are replaced behind a token are among the other ones. -/
private theorem Covers.rest
    (h : Covers replaces before
      (⟨⟨kind, .ofList text, .after (before ++ gap)⟩, Text.byteLength (before ++ gap ++ raw)⟩ ::
        spans))
    (hraw : raw ≠ []) : Covers replaces (before ++ gap ++ raw) spans := by
  intro place word word' hword hplace
  have hpos := Text.byteLength_pos hraw
  simp only [Text.byteLength_append] at hplace
  obtain ⟨span, hmem, hfound⟩ := h place word word' hword (by omega)
  rcases List.mem_cons.mp hmem with rfl | hmem
  · have hstart := hfound.1
    simp only [Span.start, Location.after, Text.byteLength_append] at hstart
    omega
  · exact ⟨span, hmem, hfound⟩

end Covers

/-- **A rewritten text has the tokens of the old one**, at the same places, if only words are
    replaced and those that take their places have the same letters. -/
theorem Splits.rewritten {spans : List Span} {last : Token} (h : Splits before text spans last)
    (hrewritten : Text.Rewritten replaces before text text')
    (hlocation : Location.after before' = .after before)
    (hsame : ∀ place word word', replaces place word word' → SameWord word word')
    (hcovers : Covers replaces before spans) :
    ∃ spans', Splits before' text' spans' last ∧
      List.Forall₂ (fun span span' => span.token.Rewritten replaces span'.token) spans spans' := by
  induction h generalizing before' text' with
  | @finish before gap rest hgap hend =>
    -- no word is left to be replaced in the gap
    obtain rfl := hrewritten.eq_self fun _ _ _ => hcovers.lt_of_nil
    rw [← hgap.after_eq hlocation]
    exact ⟨[], .finish hgap hend, .nil⟩
  | @token kind before gap raw text rest spans last hgap hspelled hsplits ih =>
    have hplace : ∀ place word word', replaces place word word' →
        Text.byteLength before ≤ Text.byteLength place →
          Text.byteLength place = Text.byteLength (before ++ gap) ∧ kind = .word ∧ text = word ∨
            Text.byteLength (before ++ gap ++ raw) ≤ Text.byteLength place :=
      fun _ _ _ => hcovers.next_or_later hsplits
    -- the gap is kept, the token is kept or replaced, and the rest is rewritten
    rw [List.append_assoc] at hrewritten
    obtain ⟨text₁, rfl, hbehind⟩ := hrewritten.exists_append gap (by
      intro place word word' hword hbound
      rcases hplace place word word' hword hbound with ⟨heq, -⟩ | hle
      · exact heq.ge
      · rw [Text.byteLength_append] at hle
        omega)
    -- the next token starts with the same letter
    have hhead := hbehind.head?_eq hsame
    obtain ⟨raw', rest', rfl, hrest, hraw⟩ := hspelled.exists_rewritten hbehind
      fun place word word' hword hbound => hplace place word word' hword (by
        rw [Text.byteLength_append] at hbound
        omega)
    obtain ⟨text', hspelled', hsize, htext⟩ :=
      hspelled.exists_replaced hsame (hrest.head?_eq hsame) hraw
    have hgapLocation := hgap.after_eq hlocation
    have hrawLocation :
        Location.after (before' ++ gap ++ raw') = .after (before ++ gap ++ raw) := by
      rw [← Location.after_spelled _ hspelled', ← Location.after_spelled _ hspelled, hgapLocation,
        hsize]
    obtain ⟨spans', hsplits', hspans⟩ := ih hrest hrawLocation (hcovers.rest hspelled.ne_nil)
    rw [← List.append_assoc]
    refine ⟨_, .token (hgap.congr hhead) hspelled' hsplits', .cons ⟨rfl, hgapLocation, ?_⟩ hspans⟩
    -- kept, or replaced by a word with the same letters
    rcases htext with rfl | ⟨hkind, hword⟩
    · exact .inl rfl
    · refine .inr ⟨hkind, before ++ gap, rfl, ?_⟩
      simpa using hword

end Lexical

end LC3
