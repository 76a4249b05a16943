import LC3.Diagnostic
import LC3.Proofs.Scanning
import LC3.Text.Split
import Mathlib.Data.List.DropRight
import Mathlib.Data.List.Induction

namespace LC3

/-!
# Carets

A diagnostic shows the line that its place is on, and a caret below it. The place is counted in
bytes and the caret is moved by characters, and the carriage returns at the end of the line are not
shown. All the same the caret stands under the first character of the token at the place, or just
behind what is shown of the line if the token ends it.

* `Text.getElem?_split` — the line around a place.
* `Text.StartsBefore` — the characters of a line that start before a column.
* `Token.Begins` — what a line has from the place of a token on.
* `Diagnostic.Place.PointsAt` — places that show a token.
* `Lexer.standsIn_of_mem_tokens`, `Token.StandsIn.exists_pointsAt` — the places of the tokens of a
  source do.
* `Diagnostic.Place.PointsAt.exists_render` — how they are reported.
-/

/-! ### Lines and columns -/

namespace Text

variable {column : Nat} {before behind shown rest : List Char}

/-- The first piece of a text is its first line. -/
theorem head?_split (text : List Char) : (split '\n' text).head? = some (firstLine text) := by
  induction text with
  | nil => rfl
  | cons c text ih =>
    by_cases hc : c = '\n'
    · simp [split, firstLine, hc]
    · obtain ⟨others, hpieces⟩ := List.head?_eq_some_iff.mp ih
      simp [split, firstLine, hc, hpieces]

/-- **The line around a place** is the piece of the text with as many line breaks in front of it. -/
theorem getElem?_split (before behind : List Char) :
    (split '\n' (before ++ behind))[before.count '\n']? =
      some (lastLine before ++ firstLine behind) := by
  induction before using List.reverseRecOn generalizing behind with
  | nil =>
    rw [List.nil_append, List.count_nil, ← List.head?_eq_getElem?, head?_split]
    rfl
  | append_singleton before c ih =>
    rw [List.append_assoc, List.singleton_append, List.count_append]
    by_cases hc : c = '\n'
    · subst hc
      have hcount : before.count '\n' + ['\n'].count '\n' = (split '\n' before).length :=
        (length_split '\n' before).symm
      rw [hcount, split_append_cons, List.getElem?_append_right (Nat.le_refl _), Nat.sub_self,
        ← List.head?_eq_getElem?, head?_split, lastLine_linebreak, List.nil_append]
    · -- the character is on the line, and is in front of the rest of it
      have hnone : '\n' ∉ [c] := by simpa using Ne.symm hc
      have hfirst : firstLine (c :: behind) = c :: firstLine behind := by simp [firstLine, hc]
      rw [List.count_eq_zero_of_not_mem hnone, Nat.add_zero, ih, lastLine_append before hnone,
        hfirst, List.append_assoc, List.singleton_append]

/-- What is left of a text without the run of a character at its end does not end with it. -/
theorem exists_dropTrailing (c : Char) (text : List Char) :
    ∃ n, text = dropTrailing c text ++ List.replicate n c ∧
      ∀ last ∈ (dropTrailing c text).getLast?, last ≠ c := by
  have hrun : text.rtakeWhile (· == c) =
      List.replicate (text.rtakeWhile (· == c)).length c :=
    List.eq_replicate_of_mem fun d hd => by simpa using List.mem_rtakeWhile_imp hd
  refine ⟨(text.rtakeWhile (· == c)).length, ?_, ?_⟩
  · rw [← hrun]
    exact List.rdropWhile_append_rtakeWhile.symm
  · intro last hlast
    obtain ⟨hne, rfl⟩ := List.mem_getLast?_eq_getLast hlast
    exact fun h => List.rdropWhile_last_not (· == c) text hne (beq_iff_eq.mpr h)

/-- Another character keeps what stands in front of it. -/
theorem dropTrailing_append_cons {c d : Char} (hd : d ≠ c) (before behind : List Char) :
    dropTrailing c (before ++ d :: behind) = before ++ d :: dropTrailing c behind := by
  unfold dropTrailing
  rw [List.reverse_append, List.reverse_cons, List.append_assoc, List.dropWhile_append]
  split
  case isTrue hnone =>
    have hnil := List.isEmpty_iff.mp hnone
    simp [hnil, hd]
  case isFalse => simp

/-- The characters of a text that start before a byte column, and those that do not. -/
structure StartsBefore (column : Nat) (shown rest : List Char) : Prop where
  early : ∀ front c behind, shown = front ++ c :: behind → byteLength front < column
  late : ∀ front c behind, rest = front ++ c :: behind → column ≤ byteLength (shown ++ front)

/-- Up to a column at the end of a character, or behind the text, all characters start before it. -/
theorem startsBefore_of_byteLength (hle : byteLength shown ≤ column)
    (hrest : rest = [] ∨ byteLength shown = column) : StartsBefore column shown rest := by
  refine ⟨?_, ?_⟩
  · rintro front c behind rfl
    have hsize := c.utf8Size_pos
    rw [byteLength_append, byteLength_cons] at hle
    omega
  · rintro front c behind rfl
    rcases hrest with hnil | hcolumn
    · simp at hnil
    · rw [byteLength_append]
      omega

end Text

/-- What stands in the line of the caret under a character in front of it: a tab under a tab, and
    else a space. -/
def Diagnostic.under (c : Char) : Char :=
  if c = '\t' then '\t' else ' '

/-- **The caret stands behind one character for each that starts before its column.** -/
theorem Text.StartsBefore.indent_eq {column : Nat} {shown rest : List Char}
    (h : StartsBefore column shown rest) :
    Diagnostic.indent column (shown ++ rest) = shown.map Diagnostic.under := by
  induction shown generalizing column with
  | nil =>
    -- the caret is under the first character that does not start before it
    cases rest with
    | nil => cases column <;> rfl
    | cons c rest =>
      obtain rfl : column = 0 := Nat.le_zero.mp (h.late [] c rest rfl)
      rfl
  | cons c shown ih =>
    obtain ⟨column, rfl⟩ :=
      Nat.exists_eq_add_one_of_ne_zero (Nat.ne_zero_of_lt (h.early [] c shown rfl))
    -- behind a character the column is less by its bytes
    have hrest : StartsBefore (column + 1 - c.utf8Size) shown rest := by
      refine ⟨fun front d behind hshown => ?_, fun front d behind hrest => ?_⟩
      · have hlt := h.early (c :: front) d behind (by rw [hshown, List.cons_append])
        rw [byteLength_cons] at hlt
        omega
      · have hle := h.late front d behind hrest
        rw [List.cons_append, byteLength_cons] at hle
        omega
    rw [List.cons_append, Diagnostic.indent, ih hrest]
    rfl

/-- A tab and a letter of two bytes fill the three bytes in front of the column. -/
example : Diagnostic.indent 3 ['\t', 'é', '=', '='] = ['\t', ' '] := by decide

/-! ### Tokens on their lines -/

open Lexical

/-- What a line has from the place of a token on. A literal starts with its opening quote; a line
    break is not on its line, and nor is the end of the source unless it is a NUL. -/
def Token.Begins (token : Token) (behind : List Char) : Prop :=
  match token.kind with
  | .linebreak => behind = []
  | .sourceEnd => Lexer.AtEnd behind
  | .string => ∃ quote more, IsQuote quote ∧ behind = quote :: (token.text.toList ++ quote :: more)
  | _ => token.text ≠ "" ∧ ∃ more, behind = token.text.toList ++ more

/-- Only the ends of lines have nothing on their lines. -/
theorem Token.Begins.endsLine {token : Token} (h : token.Begins []) : Grammar.EndsLine token := by
  unfold Begins at h
  split at h
  case h_1 hkind => exact .inl hkind
  case h_2 hkind => exact .inr hkind
  case h_3 =>
    obtain ⟨quote, more, -, hnil⟩ := h
    cases hnil
  case h_4 =>
    obtain ⟨hne, more, hnil⟩ := h
    exact absurd (String.toList_eq_nil_iff.mp (List.append_eq_nil_iff.mp hnil.symm).1) hne

/-- A token as it is written begins with that on its line. -/
theorem Lexical.Spelled.begins {kind : TokenKind} {raw text behind : List Char} {location : Location}
    (h : Spelled kind raw text behind) :
    Token.Begins ⟨kind, .ofList text, location⟩ (Text.firstLine (raw ++ behind)) := by
  by_cases hbreak : kind = .linebreak
  · subst hbreak
    rw [h.raw_of_linebreak]
    rfl
  -- other tokens have no line break, so all of one is on its line
  have hfirst : Text.firstLine (raw ++ behind) = raw ++ Text.firstLine behind := by
    refine List.takeWhile_append_of_pos fun c hc => decide_eq_true ?_
    rintro rfl
    exact h.linebreak_notMem hbreak hc
  rw [hfirst]
  unfold Token.Begins
  dsimp only
  split
  case h_1 => exact absurd rfl hbreak
  case h_2 => exact absurd rfl h.ne_sourceEnd
  case h_3 =>
    obtain ⟨quote, hquote, rfl⟩ := h.exists_quote
    exact ⟨quote, Text.firstLine behind, hquote, by simp⟩
  case h_4 hstring =>
    obtain rfl := h.eq_raw hstring
    refine ⟨fun hempty => h.ne_nil ?_, Text.firstLine behind, by simp⟩
    simpa using hempty

/-- The first character of a token is no carriage return. -/
theorem Lexical.Spelled.head?_ne {kind : TokenKind} {raw text behind : List Char}
    (h : Spelled kind raw text behind) :
    ∀ c ∈ (Text.firstLine (raw ++ behind)).head?, c ≠ '\r' := by
  obtain ⟨c, rest, rfl, hblank, -, -⟩ := h.exists_head
  rintro d hd rfl
  rw [List.cons_append, Text.firstLine, List.takeWhile_cons] at hd
  split at hd
  · obtain rfl := Option.some.inj hd
    exact absurd hblank (by decide)
  · cases hd

/-- Whether a token stands at its location in a source. -/
def Token.StandsIn (token : Token) (source : String) : Prop :=
  ∃ before behind, source.toList = before ++ behind ∧ token.location = .after before ∧
    token.Begins (Text.firstLine behind) ∧ ∀ c ∈ (Text.firstLine behind).head?, c ≠ '\r'

/-- What a text splits into stands where it has been found, the end included. -/
theorem Lexical.Splits.standsIn {source : String} {before text : List Char} {spans : List Span}
    {last : Token} (h : Splits before text spans last) (hsource : source.toList = before ++ text) :
    ∀ token ∈ spans.map Span.token ++ [last], token.StandsIn source := by
  induction h with
  | @finish before gap rest hgap hend =>
    have hnul : ∀ c ∈ (Text.firstLine rest).head?, c = '\x00' := by
      intro c hc
      rw [Text.firstLine, List.head?_takeWhile] at hc
      exact hend c (Option.filter_eq_some_iff.mp hc).1
    have hstands : Token.StandsIn (Lexer.endToken (.after (before ++ gap))) source := by
      refine ⟨before ++ gap, rest, by rw [hsource, List.append_assoc], rfl, hnul, ?_⟩
      intro c hc
      rw [hnul c hc]
      decide
    exact List.forall_mem_singleton.mpr hstands
  | @token kind before gap raw text rest spans last hgap hspelled h ih =>
    have hwhole : source.toList = before ++ gap ++ raw ++ rest := by
      simp only [hsource, List.append_assoc]
    have hstands : Token.StandsIn ⟨kind, .ofList text, .after (before ++ gap)⟩ source :=
      ⟨before ++ gap, raw ++ rest, by rw [hwhole, List.append_assoc _ raw], rfl, hspelled.begins,
        hspelled.head?_ne⟩
    exact List.forall_mem_cons.mpr ⟨hstands, ih hwhole⟩

/-- **Tokens stand at their locations.** -/
theorem Lexer.standsIn_of_mem_tokens {source : String} {token : Token}
    (h : token ∈ (ofSource source).tokens.1) : token.StandsIn source := by
  obtain ⟨⟨last, htokens, -, hsplits⟩, -⟩ :=
    splits_spans (stands_ofSource source) rfl (Nat.lt_succ_self _)
  refine hsplits.standsIn rfl token ?_
  rw [← htokens]
  exact h

/-! ### Places -/

namespace Diagnostic.Place

/-- A place that shows a token of a source, with a caret behind one character for each of `shown`.
    The line is a piece of the source without the carriage returns at its end, and from its column
    on the piece begins with the token. The caret is under the first character of the token; if the
    token has none on the line, it is behind all that is shown of the line. -/
inductive PointsAt (source : String) (token : Token) : Place → List Char → Prop where
  | intro {number returns : Nat} {before behind shown rest : List Char}
    (hpiece : (Text.split '\n' source.toList)[number]? = some (before ++ behind))
    (hbegins : token.Begins behind)
    (hline : before ++ behind = shown ++ rest ++ List.replicate returns '\r')
    (htrimmed : ∀ last ∈ (shown ++ rest).getLast?, last ≠ '\r')
    (hshown : Text.StartsBefore (Text.byteLength before) shown rest)
    (hcaret : (∃ c, behind.head? = some c ∧ rest.head? = some c ∧ shown = before) ∨
      behind = [] ∧ rest = [] ∧ Grammar.EndsLine token) :
    PointsAt source token ⟨number + 1, Text.byteLength before, .ofList (shown ++ rest)⟩ shown

end Diagnostic.Place

/-- **The place of a token shows it.** -/
theorem Token.StandsIn.exists_pointsAt {token : Token} {source : String}
    (h : token.StandsIn source) :
    ∃ place shown, token.location.place source = .ok place ∧ place.PointsAt source token shown := by
  obtain ⟨before, behind, hsource, hlocation, hbegins, hreturn⟩ := h
  have hpiece : (Text.split '\n' source.toList)[before.count '\n']? =
      some (Text.lastLine before ++ Text.firstLine behind) := by
    rw [hsource, Text.getElem?_split]
  have hplace : token.location.place source = .ok ⟨before.count '\n' + 1,
      Text.byteLength (Text.lastLine before), .ofList
        (Text.dropTrailing '\r' (Text.lastLine before ++ Text.firstLine behind))⟩ := by
    have hcut : Text.cutBytes? (Text.byteLength before) source.toList = some (before, behind) :=
      Text.cutBytes?_eq_some_iff.mpr ⟨hsource, rfl⟩
    rw [hlocation, Location.place, Location.lineText?]
    dsimp only [Location.after]
    rw [hcut]
    rfl
  obtain ⟨returns, hline, htrimmed⟩ :=
    Text.exists_dropTrailing '\r' (Text.lastLine before ++ Text.firstLine behind)
  generalize Text.lastLine before = front at hpiece hplace hline htrimmed
  cases hfirst : Text.firstLine behind with
  | nil =>
    -- the token ends the line, of which the carriage returns are not shown
    rw [hfirst] at hpiece hplace hline htrimmed hbegins
    generalize Text.dropTrailing '\r' (front ++ []) = shown at hplace hline htrimmed
    have hle : Text.byteLength shown ≤ Text.byteLength front := by
      rw [List.append_nil] at hline
      rw [hline, Text.byteLength_append]
      exact Nat.le_add_right _ _
    rw [← List.append_nil shown] at hplace hline htrimmed
    exact ⟨_, shown, hplace, .intro hpiece hbegins hline htrimmed
      (Text.startsBefore_of_byteLength hle (.inl rfl)) (.inr ⟨rfl, rfl, hbegins.endsLine⟩)⟩
  | cons c more =>
    -- the token starts on the line with a character that is shown
    rw [hfirst] at hpiece hplace hline htrimmed hbegins hreturn
    rw [Text.dropTrailing_append_cons (hreturn c rfl)] at hplace hline htrimmed
    exact ⟨_, front, hplace, .intro hpiece hbegins hline htrimmed
      (Text.startsBefore_of_byteLength (Nat.le_refl _) (.inr rfl)) (.inl ⟨c, rfl, rfl, rfl⟩)⟩

/-! ### Reports -/

namespace Diagnostic

/-- The two lines of a report that show a place: the line of source, and behind a margin of the same
    width a caret with some characters in front of it. -/
def Place.picture (place : Place) (blanks : List Char) : String :=
  let number := toString place.line
  let margin := String.ofList (List.replicate number.length ' ')
  s!"{number} | {place.sourceLine}\n{margin} | {String.ofList blanks}^\n"

/-- Pushing a character repeatedly writes as many of it. -/
private theorem pushn_eq (c : Char) (n : Nat) : "".pushn c n = .ofList (List.replicate n c) := by
  rw [String.pushn_eq_repeat_push]
  induction n with
  | zero => rfl
  | succ n ih =>
    rw [Nat.repeat, ih, List.replicate_succ']
    simp

namespace Place.PointsAt

variable {source : String} {token : Token} {place : Place} {shown : List Char}

/-- A place that shows a token is shown with its line and the caret. -/
theorem exists_place_render (h : place.PointsAt source token shown) :
    ∃ front, place.render = front ++ "\n" ++ place.picture (shown.map under) := by
  cases h with
  | @intro number _ before _ _ _ hpiece hbegins hline htrimmed hshown hcaret =>
    unfold Place.render picture
    dsimp only
    -- the numbers are left as they are written, and only their texts are put together
    rw [String.toList_ofList, hshown.indent_eq, pushn_eq]
    generalize String.ofList (List.replicate _ ' ') = margin
    refine ⟨s!"{margin}--> {number + 1}:{Text.byteLength before + 1}\n{margin} |", ?_⟩
    generalize toString (number + 1) = numeral
    generalize toString (Text.byteLength before + 1) = position
    rw [← String.toList_inj]
    simp [ToString.toString]

/-- **The report of a diagnostic shows its token.** -/
theorem exists_render {diagnostic : Diagnostic} (h : place.PointsAt source token shown)
    (hplace : diagnostic.place? = some place) :
    ∃ front back, diagnostic.render =
      front ++ "\n" ++ place.picture (shown.map under) ++ back := by
  obtain ⟨heading, help, hparts⟩ :
      ∃ heading help, diagnostic.render = heading ++ place.render ++ help := by
    unfold Diagnostic.render
    rw [hplace]
    exact ⟨_, _, rfl⟩
  obtain ⟨front, hrender⟩ := h.exists_place_render
  exact ⟨heading ++ front, help, by rw [hparts, hrender]; simp only [String.append_assoc]⟩

end Place.PointsAt

end Diagnostic

end LC3
