namespace LC3.Text

/-!
# Pieces of a text

A text falls into pieces at the occurrences of a character: a file into lines, a path into names.
There is always one piece more than there are occurrences.
-/

/-- The pieces of a text between the occurrences of a character, which belong to none of them. -/
def split (separator : Char) : List Char → List (List Char)
  | [] => [[]]
  | c :: text =>
    if c = separator then [] :: split separator text
    else
      match split separator text with
      | [] => [[c]]
      | first :: others => (c :: first) :: others

/-- There is one piece more than there are separators. -/
theorem length_split (separator : Char) (text : List Char) :
    (split separator text).length = text.count separator + 1 := by
  induction text with
  | nil => rfl
  | cons c text ih =>
    by_cases h : c = separator
    · simp [split, h, ih]
    · rw [split, if_neg h, List.count_cons_of_ne h]
      cases hs : split separator text with
      | nil => simp [hs] at ih
      | cons first others => simpa [hs] using ih

variable {separator : Char} {first rest : List Char}

/-- A text without separators is one piece. -/
theorem split_of_notMem (h : separator ∉ first) : split separator first = [first] := by
  induction first with
  | nil => rfl
  | cons c first ih =>
    obtain ⟨hc, hfirst⟩ := not_or.mp (mt List.mem_cons.mpr h)
    rw [split, if_neg (Ne.symm hc), ih hfirst]

/-- A separator comes between pieces. -/
theorem split_append_cons (separator : Char) (first rest : List Char) :
    split separator (first ++ separator :: rest) =
      split separator first ++ split separator rest := by
  induction first with
  | nil => simp [split]
  | cons c first ih =>
    rw [List.cons_append, split, split]
    by_cases hc : c = separator
    · rw [if_pos hc, if_pos hc, ih, List.cons_append]
    · rw [if_neg hc, if_neg hc, ih]
      cases hpieces : split separator first with
      -- there is always a first piece for the character to join
      | nil =>
        have hlength := length_split separator first
        rw [hpieces] at hlength
        cases hlength
      | cons piece others => rfl

/-- A separator ends a piece. -/
theorem split_append (h : separator ∉ first) :
    split separator (first ++ separator :: rest) = first :: split separator rest := by
  rw [split_append_cons, split_of_notMem h, List.singleton_append]

end LC3.Text
