import LC3.Proofs.Grammar
import LC3.Proofs.Spelling

namespace LC3

/-!
# The lines of a source

The tokens of a source up to its end fall into lines: each ends with a line break, the last one with
the end of the source.

* `TokenLine` — the tokens of a line.
* `TokenLine.ofSource` — the lines of a source.
* `TokenLine.closed_ofSource` — the last line alone ends the source.
* `TokenLine.flatMap_tokens_ofSource` — the lines have the tokens of the source, in order.
* `TokenLine.numbered_ofSource` — the tokens of the `n`-th line are on line `n`.
-/

open Grammar

/-! ### Tokens up to the end -/

namespace Lexer

/-- Behind the end of the source there are only further ends of it. -/
theorem next_of_finished {lexer : Lexer} (h : lexer.finished = true) :
    lexer.next = (endToken lexer.location, lexer) := by
  unfold next
  rw [if_pos h]

theorem take_of_finished {lexer : Lexer} (h : lexer.finished = true) (limit : Nat) :
    lexer.take limit = ([], lexer) := by
  cases limit with
  | zero => rfl
  | succ limit => rw [take, next?, if_pos h]

theorem take_succ {lexer : Lexer} (h : lexer.finished = false) (limit : Nat) :
    (lexer.take (limit + 1)).1 = lexer.next.1 :: (lexer.next.2.take limit).1 := by
  rw [take, next?, if_neg (by rw [h]; decide)]

/-- The tokens that are taken are the first ones. -/
theorem spells_take (lexer : Lexer) (limit : Nat) : Spells lexer.nth 0 (lexer.take limit).1 := by
  -- the second token of a lexer is the first of the lexer behind the first token
  have hshift : ∀ (tokens : Nat → Token) (start : Nat) (rest : List Token),
      Spells (fun n => tokens (n + 1)) start rest → Spells tokens (start + 1) rest := by
    intro tokens start rest h
    induction rest generalizing start with
    | nil => trivial
    | cons token rest ih => exact ⟨h.1, ih _ h.2⟩
  induction limit generalizing lexer with
  | zero => trivial
  | succ limit ih =>
    cases hfinished : lexer.finished with
    | true =>
      rw [take_of_finished hfinished]
      trivial
    | false =>
      rw [take_succ hfinished]
      exact ⟨rfl, hshift _ _ _ (ih lexer.next.2)⟩

/-- A token ends the source, or it takes a character. -/
theorem next_cases {lexer : Lexer} (hfinished : lexer.finished = false) :
    lexer.next.1.kind = .sourceEnd ∧ lexer.next.2.finished = true ∨
      lexer.next.1.kind ≠ .sourceEnd ∧ lexer.next.2.finished = false ∧
        lexer.next.2.rest.length < lexer.rest.length := by
  have hfinds := finds_next hfinished
  generalize lexer.next = result at hfinds ⊢
  cases hfinds with
  | finish => exact .inl ⟨rfl, rfl⟩
  | token hrest _ hspelled _ =>
    have hraw := List.length_pos_iff.mpr hspelled.ne_nil
    refine .inr ⟨hspelled.ne_sourceEnd, rfl, ?_⟩
    dsimp only
    rw [hrest, List.length_append, List.length_append]
    omega

/-- The tokens of a source: the last one ends it, and none before. Each of the others takes a
    character. -/
theorem exists_take {lexer : Lexer} {limit : Nat} (hfinished : lexer.finished = false)
    (hlimit : lexer.rest.length < limit) :
    ∃ body last, (lexer.take limit).1 = body ++ [last] ∧ last.kind = .sourceEnd ∧
      (∀ token ∈ body, token.kind ≠ .sourceEnd) ∧ body.length ≤ lexer.rest.length := by
  induction limit generalizing lexer with
  | zero => exact absurd hlimit (Nat.not_lt_zero _)
  | succ limit ih =>
    rw [take_succ hfinished]
    rcases next_cases hfinished with ⟨hkind, hbehind⟩ | ⟨hkind, hbehind, hshorter⟩
    · rw [take_of_finished hbehind]
      exact ⟨[], lexer.next.1, rfl, hkind, List.forall_mem_nil _, Nat.zero_le _⟩
    · obtain ⟨body, last, htake, hlast, hbody, hlength⟩ := ih hbehind (by omega)
      refine ⟨lexer.next.1 :: body, last, ?_, hlast, List.forall_mem_cons.mpr ⟨hkind, hbody⟩, ?_⟩
      · rw [htake]
        rfl
      · rw [List.length_cons]
        omega

/-- The tokens of a source. -/
theorem exists_tokens_ofSource (source : String) :
    ∃ body last, (Lexer.ofSource source).tokens.1 = body ++ [last] ∧ last.kind = .sourceEnd ∧
      (∀ token ∈ body, token.kind ≠ .sourceEnd) ∧ body.length ≤ source.toList.length :=
  exists_take rfl (Nat.lt_succ_self _)

/-- A token is on the line that the lexer has come to, and only a line break leads to the next. -/
theorem line_next (lexer : Lexer) :
    lexer.next.1.location.line = lexer.location.line ∧
      lexer.next.2.location.line = if lexer.next.1.kind = .linebreak
        then lexer.location.line + 1 else lexer.location.line := by
  cases hfinished : lexer.finished with
  | true =>
    rw [next_of_finished hfinished]
    exact ⟨rfl, rfl⟩
  | false =>
    have hfinds := finds_next hfinished
    generalize lexer.next = result at hfinds ⊢
    cases hfinds with
    | finish _ _ _ hlocation =>
      rw [hlocation]
      exact ⟨rfl, rfl⟩
    | token _ _ _ hlocation =>
      rw [hlocation]
      refine ⟨rfl, ?_⟩
      dsimp only
      split <;> rfl

end Lexer

/-- Whether tokens are on lines from a given one on, where each line break leads to the next. -/
def OnLines : Nat → List Token → Prop
  | _, [] => True
  | number, token :: tokens =>
    token.location.line = number ∧
      OnLines (if token.kind = .linebreak then number + 1 else number) tokens

/-- The tokens that are taken are on the lines from that of the lexer on. -/
theorem Lexer.onLines_take (lexer : Lexer) (limit : Nat) :
    OnLines lexer.location.line (lexer.take limit).1 := by
  induction limit generalizing lexer with
  | zero => trivial
  | succ limit ih =>
    cases hfinished : lexer.finished with
    | true =>
      rw [take_of_finished hfinished]
      trivial
    | false =>
      obtain ⟨htoken, hbehind⟩ := line_next lexer
      rw [take_succ hfinished, OnLines, ← hbehind]
      exact ⟨htoken, ih lexer.next.2⟩

/-! ### Lines -/

/-- The tokens of a line, with the one that ends it. -/
structure TokenLine where
  body : List Token
  ending : Token
  inside : ∀ token ∈ body, ¬ EndsLine token
  ends : EndsLine ending

namespace TokenLine

/-- All tokens of a line. -/
def tokens (line : TokenLine) : List Token :=
  line.body ++ [line.ending]

/-- A line with one more token in front. -/
def cons (token : Token) (h : ¬ EndsLine token) (line : TokenLine) : TokenLine where
  body := token :: line.body
  ending := line.ending
  inside := List.forall_mem_cons.mpr ⟨h, line.inside⟩
  ends := line.ends

/-- The lines that tokens fall into. Tokens behind the last that ends a line belong to none. -/
def split : List Token → List TokenLine
  | [] => []
  | token :: tokens =>
    if h : EndsLine token then ⟨[], token, nofun, h⟩ :: split tokens
    else
      match split tokens with
      | [] => []
      | line :: lines => line.cons token h :: lines

/-- The lines of a source, up to its end. -/
def ofSource (source : String) : List TokenLine :=
  split (Lexer.ofSource source).tokens.1

/-- Lines of which the last one alone ends the source. -/
inductive Closed : List TokenLine → Prop where
  | last {line : TokenLine} (h : line.ending.kind = .sourceEnd) : Closed [line]
  | next {line : TokenLine} {lines : List TokenLine} (h : line.ending.kind = .linebreak)
    (hrest : Closed lines) : Closed (line :: lines)

/-- Lines on consecutive lines of a source, from a given one on. -/
def Numbered : Nat → List TokenLine → Prop
  | _, [] => True
  | number, line :: lines =>
    (∀ token ∈ line.tokens, token.location.line = number) ∧ Numbered (number + 1) lines

/-- Splitting up to the end of a source: every token is in a line, and lines are numbered like their
    tokens. -/
theorem split_append_end {body : List Token} {last : Token} {number : Nat}
    (hlast : last.kind = .sourceEnd) (hbody : ∀ token ∈ body, token.kind ≠ .sourceEnd)
    (hlines : OnLines number (body ++ [last])) :
    Closed (split (body ++ [last])) ∧
      (split (body ++ [last])).flatMap tokens = body ++ [last] ∧
      Numbered number (split (body ++ [last])) := by
  -- the induction is on the tokens in front of the end; a token joins the line behind it unless it
  -- ends a line of its own
  induction body generalizing number with
  | nil =>
    have hends : EndsLine last := .inr hlast
    rw [List.nil_append, split, dif_pos hends]
    exact ⟨.last hlast, rfl, List.forall_mem_singleton.mpr hlines.1, trivial⟩
  | cons token body ih =>
    obtain ⟨htoken, hbody⟩ := List.forall_mem_cons.mp hbody
    obtain ⟨hnumber, hlines⟩ := hlines
    obtain ⟨hclosed, hflat, hnumbered⟩ := ih hbody hlines
    rw [List.cons_append, split]
    by_cases hends : EndsLine token
    · have hbreak : token.kind = .linebreak := hends.resolve_right htoken
      rw [dif_pos hends]
      rw [if_pos hbreak] at hnumbered
      refine ⟨.next hbreak hclosed, ?_, List.forall_mem_singleton.mpr hnumber, hnumbered⟩
      rw [List.flatMap_cons, hflat]
      rfl
    · rw [dif_neg hends]
      rw [if_neg fun h => hends (.inl h)] at hnumbered
      cases hsplit : split (body ++ [last]) with
      | nil =>
        -- there is always a line behind, that of the end
        rw [hsplit] at hclosed
        cases hclosed
      | cons line lines =>
        rw [hsplit] at hclosed hflat hnumbered
        refine ⟨?_, ?_, List.forall_mem_cons.mpr ⟨hnumber, hnumbered.1⟩, hnumbered.2⟩
        · cases hclosed with
          | last h => exact .last h
          | next h hrest => exact .next h hrest
        · rw [List.flatMap_cons] at hflat
          show token :: line.tokens ++ lines.flatMap tokens = _
          rw [List.cons_append, hflat]

variable (source : String)

/-- The three properties of the lines of a source, which come from one split of its tokens. -/
private theorem ofSource_spec :
    Closed (ofSource source) ∧
      (ofSource source).flatMap tokens = (Lexer.ofSource source).tokens.1 ∧
      Numbered 1 (ofSource source) := by
  obtain ⟨body, last, htokens, hlast, hbody, -⟩ :=
    Lexer.exists_tokens_ofSource source
  have hlines := Lexer.onLines_take (.ofSource source) ((Lexer.ofSource source).rest.length + 1)
  have hlines' : OnLines 1 (Lexer.ofSource source).tokens.1 := hlines
  unfold ofSource
  rw [htokens] at hlines' ⊢
  exact split_append_end hlast hbody hlines'

/-- **Lines end with line breaks**, but for the last one, which ends the source. -/
theorem closed_ofSource : Closed (ofSource source) :=
  (ofSource_spec source).1

/-- **Every token is in a line.** The lines have the tokens of the source, in order. -/
theorem flatMap_tokens_ofSource :
    (ofSource source).flatMap tokens = (Lexer.ofSource source).tokens.1 :=
  (ofSource_spec source).2.1

/-- **Lines are counted from one**, like the locations of their tokens. -/
theorem numbered_ofSource : Numbered 1 (ofSource source) :=
  (ofSource_spec source).2.2

/-- The tokens of the lines are those that a context of the source reads. -/
theorem spells_ofSource :
    Spells (Lexer.ofSource source).nth 0 ((ofSource source).flatMap tokens) := by
  rw [flatMap_tokens_ofSource]
  exact Lexer.spells_take _ _

/-- There are at most as many tokens as characters, and one more. -/
theorem length_tokens_ofSource :
    ((ofSource source).flatMap tokens).length ≤ source.toList.length + 1 := by
  obtain ⟨body, last, htokens, -, -, hlength⟩ :=
    Lexer.exists_tokens_ofSource source
  rw [flatMap_tokens_ofSource, htokens, List.length_append]
  exact Nat.succ_le_succ hlength

end TokenLine

end LC3
