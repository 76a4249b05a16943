namespace LC3.Text

/-!
# What a terminal shows

A text may hold control characters and control sequences, which move or colour what a terminal
shows and are not shown themselves. `visible` leaves out all of them but blanks and line breaks.

A sequence starts with an escape character; the character behind it tells how far the sequence
extends. A blank or line break in the middle of a sequence that sets something is shown, and so is
what follows it up to the next control character.
-/

/-- The part of a control sequence that a character stands in. -/
inductive Sequence where
  /-- Outside every sequence. -/
  | outside
  /-- Behind the escape character. -/
  | escape
  /-- Behind the escape character and some marks. -/
  | marks
  /-- In the numbers of a sequence that sets something; a letter ends it. -/
  | numbers
  /-- In a text for the terminal itself, which only another control character ends. -/
  | string
  /-- In the title of the window; a bell ends it. -/
  | title
deriving DecidableEq

namespace Sequence

/-- Whether a character is between two others. -/
def between (first last c : Char) : Bool :=
  first ≤ c && c ≤ last

/-- Whether one of the bytes of a character is the one that ended strings on older terminals. -/
def endsString (c : Char) : Bool :=
  (String.singleton c).toUTF8.data.contains 0x9c

/-- The part behind the character that follows an escape. -/
def afterEscape (c : Char) : Sequence :=
  if c = '[' then numbers
  else if c = ']' then title
  else if c = 'P' ∨ c = 'X' ∨ c = '^' ∨ c = '_' then string
  else if between ' ' '/' c then marks
  else if between '0' '~' c then outside
  else escape

/-- The part behind a character. -/
def next (part : Sequence) (c : Char) : Sequence :=
  if c = '\x1b' then escape
  else if c = '\x18' ∨ c = '\x1a' then outside
  else
    match part with
    | outside => outside
    | escape => afterEscape c
    | marks => if between '0' '~' c then outside else marks
    | numbers => if between '@' '~' c then outside else numbers
    | string => if endsString c then outside else string
    | title => if c = '\x07' then outside else title

/-- Whether a character moves on along the line or to another one. -/
def isSpacing (c : Char) : Bool :=
  c = '\t' || c = '\n' || c = '\x0c' || c = '\r'

/-- Whether a character is shown in a part of a sequence. -/
def shows (part : Sequence) (c : Char) : Bool :=
  match part with
  | outside => isSpacing c || between ' ' '~' c || '\x7f' < c
  | escape | marks | numbers => isSpacing c
  | string | title => false

end Sequence

/-- The characters of a text that a terminal shows. `shown` tells that the character in front is
    one of them. -/
def visibleFrom (part : Sequence) (shown : Bool) : List Char → List Char
  | [] => []
  | c :: text =>
    if (if shown then Sequence.outside else part).shows c then
      c :: visibleFrom (if '\x7f' < c then .outside else part) true text
    else visibleFrom (part.next c) false text

/-- What a terminal shows of a text. -/
def visible (text : String) : String :=
  String.ofList (visibleFrom .outside false text.toList)

/-- What is shown of a text is a part of it, in the same order. -/
theorem visibleFrom_sublist (part : Sequence) (shown : Bool) (text : List Char) :
    (visibleFrom part shown text).Sublist text := by
  induction text generalizing part shown with
  | nil => exact .slnil
  | cons c text ih =>
    by_cases h : (if shown then Sequence.outside else part).shows c = true
    · rw [visibleFrom, if_pos h]
      exact (ih _ _).cons_cons c
    · rw [visibleFrom, if_neg h]
      exact (ih _ _).cons c

/-- A text without control characters, spacing apart, is shown as it is. -/
theorem visibleFrom_outside_of_forall_shows (shown : Bool) {text : List Char}
    (h : ∀ c ∈ text, Sequence.outside.shows c = true) :
    visibleFrom .outside shown text = text := by
  induction text generalizing shown with
  | nil => rfl
  | cons c text ih =>
    obtain ⟨hc, ht⟩ := List.forall_mem_cons.1 h
    rw [visibleFrom, ite_self, if_pos hc, ite_self, ih true ht]

end LC3.Text
