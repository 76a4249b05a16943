namespace LC3.Text

/-!
# Byte positions in a text

A text is a list of characters, while places in it are counted in bytes of its UTF-8 form.
`cutBytes?` is the bridge between the two: it cuts a text at a byte position, and
`cutBytes?_eq_some_iff` says that it finds exactly the cuts that fall between two characters.

* `byteLength` — how many bytes a text takes.
* `cutBytes?` — the two parts of a text at a byte position.
* `slice?` — the part of a text between two byte positions.
* `lastLine`, `firstLine` — the line a text ends with, and the one it starts with.
-/

/-- The number of bytes of a text in UTF-8. -/
def byteLength : List Char → Nat
  | [] => 0
  | c :: text => c.utf8Size + byteLength text

@[simp] theorem byteLength_nil : byteLength [] = 0 := rfl

@[simp] theorem byteLength_cons (c : Char) (text : List Char) :
    byteLength (c :: text) = c.utf8Size + byteLength text := rfl

@[simp] theorem byteLength_append (before after : List Char) :
    byteLength (before ++ after) = byteLength before + byteLength after := by
  induction before with
  | nil => simp
  | cons c before ih => simp [ih, Nat.add_assoc]

/-- A text that is not empty has bytes. -/
theorem byteLength_pos {text : List Char} (h : text ≠ []) : 0 < byteLength text := by
  cases text with
  | nil => exact absurd rfl h
  | cons c text =>
    rw [byteLength_cons]
    exact Nat.add_pos_left c.utf8Size_pos _

/-- Cuts a text after a number of bytes. There is no such cut past the end of the text or
    inside a character. -/
def cutBytes? : Nat → List Char → Option (List Char × List Char)
  | 0, text => some ([], text)
  | _ + 1, [] => none
  | n + 1, c :: text =>
    if c.utf8Size ≤ n + 1 then
      (cutBytes? (n + 1 - c.utf8Size) text).map fun (before, after) => (c :: before, after)
    else none

/-- A cut exists exactly between the parts of a text whose first part has that many bytes. -/
theorem cutBytes?_eq_some_iff {n : Nat} {text before after : List Char} :
    cutBytes? n text = some (before, after) ↔ text = before ++ after ∧ byteLength before = n := by
  fun_induction cutBytes? n text generalizing before with
  | case1 text =>
    constructor
    · intro h
      obtain ⟨rfl, rfl⟩ := by simpa using h
      simp
    · rintro ⟨rfl, h⟩
      cases before with
      | nil => rfl
      | cons c before => have := c.utf8Size_pos; simp at h; omega
  | case2 n =>
    cases before with
    | nil => simp
    | cons c before => simp
  | case3 n c text hc ih =>
    -- the first character is cut off, and the rest is cut after the bytes that remain
    cases before with
    | nil => simp
    | cons d before =>
      simp only [Option.map_eq_some_iff, Prod.mk.injEq, List.cons.injEq, List.cons_append,
        Prod.exists, byteLength_cons]
      constructor
      · rintro ⟨b, a, h, ⟨rfl, rfl⟩, rfl⟩
        obtain ⟨rfl, hb⟩ := ih.1 h
        exact ⟨⟨rfl, rfl⟩, by omega⟩
      · rintro ⟨⟨rfl, rfl⟩, h⟩
        exact ⟨before, after, ih.2 ⟨rfl, by omega⟩, ⟨rfl, rfl⟩, rfl⟩
  | case4 n c text hc =>
    -- the cut would lie inside the first character
    cases before with
    | nil => simp
    | cons d before =>
      simp only [reduceCtorEq, List.cons_append, List.cons.injEq, byteLength_cons, false_iff]
      rintro ⟨⟨rfl, -⟩, h⟩
      omega

/-- The part of a text between two byte positions. There is none when one of them lies past the end
    or inside a character, or when the first lies behind the second. -/
def slice? (start stop : Nat) (text : List Char) : Option (List Char) :=
  (cutBytes? stop text).bind fun (front, _) => (cutBytes? start front).map Prod.snd

/-- A slice is what lies between a part in front that ends at its start and a part behind it. -/
theorem slice?_eq_some_iff {start stop : Nat} {text middle : List Char} :
    slice? start stop text = some middle ↔ ∃ before after, text = before ++ middle ++ after ∧
      byteLength before = start ∧ byteLength (before ++ middle) = stop := by
  constructor
  · intro h
    obtain ⟨⟨front, after⟩, hfront, h⟩ := Option.bind_eq_some_iff.mp h
    obtain ⟨⟨before, middle⟩, hmiddle, rfl⟩ := Option.map_eq_some_iff.mp h
    obtain ⟨rfl, hstop⟩ := cutBytes?_eq_some_iff.mp hfront
    obtain ⟨rfl, hstart⟩ := cutBytes?_eq_some_iff.mp hmiddle
    exact ⟨before, after, rfl, hstart, hstop⟩
  · rintro ⟨before, after, rfl, hstart, hstop⟩
    have hfront : cutBytes? stop (before ++ middle ++ after) = some (before ++ middle, after) :=
      cutBytes?_eq_some_iff.mpr ⟨rfl, hstop⟩
    have hmiddle : cutBytes? start (before ++ middle) = some (before, middle) :=
      cutBytes?_eq_some_iff.mpr ⟨rfl, hstart⟩
    exact Option.bind_eq_some_iff.mpr
      ⟨_, hfront, Option.map_eq_some_iff.mpr ⟨_, hmiddle, rfl⟩⟩

/-- The line that a text ends with: what follows its last line break. -/
def lastLine (text : List Char) : List Char :=
  (text.reverse.takeWhile (· ≠ '\n')).reverse

/-- Text without line breaks belongs to the line in front of it. -/
theorem lastLine_append {text : List Char} (before : List Char) (h : '\n' ∉ text) :
    lastLine (before ++ text) = lastLine before ++ text := by
  have hall : ∀ c ∈ text.reverse, decide (c ≠ '\n') = true := by
    intro c hc
    refine decide_eq_true ?_
    rintro rfl
    exact h (List.mem_reverse.mp hc)
  unfold lastLine
  rw [List.reverse_append, List.takeWhile_append_of_pos hall, List.reverse_append,
    List.reverse_reverse]

/-- Nothing is on a line yet where it begins. -/
theorem lastLine_linebreak (before : List Char) : lastLine (before ++ ['\n']) = [] := by
  simp [lastLine]

/-- The line that a text starts with: what precedes its first line break. -/
def firstLine (text : List Char) : List Char :=
  text.takeWhile (· ≠ '\n')

/-- A text without the run of one character that it ends with. -/
def dropTrailing (c : Char) (text : List Char) : List Char :=
  (text.reverse.dropWhile (· == c)).reverse

end LC3.Text
