import LC3.Program
import LC3.Proofs.Analysis
import LC3.Proofs.Lockstep
import LC3.Proofs.SourceLines
import LC3.Proofs.Stages
import Mathlib.Data.List.Forall2

namespace LC3

/-!
# Reading a whole source

A source is read line by line. A line that cannot be read is skipped with its end, so what is wrong
with it is told once and the lines around it are read as if they stood alone.

* `TokenLine.nodes`, `TokenLine.fails`, `TokenLine.complaints` — what the rule of a line makes of
  its tokens alone.
* `TokenLine.exists_run_recover` — reading a line, or skipping it.
* `TokenLine.exists_runTimes` — reading line after line up to the end of the source.
* `Context.ReadsLines` — what is left of a source that has been read.
* `Context.exists_apply_document`, `lines_of_parse`, `parse_lines` — reading a source.
* `problems_parse` — what is wrong with a source.
* `Assembly.Stages.recordsOwnFormat` — the formats of what is read and analyzed.
-/

open Grammar
open Outcome (success)

namespace TokenLine

/-! ### Lines on their own -/

/-- The tokens of a line as if nothing stood around it: behind them is the end of the source. -/
def alone (line : TokenLine) (index : Nat) : Token :=
  (line.tokens[index]?).getD (Lexer.endToken line.ending.location)

/-- What the rule of a line makes of the tokens of a line alone. -/
def read (line : TokenLine) : Option Outcome :=
  Line.line.run (.ofTokens line.alone) (line.body.length + 1) 0

/-- The nodes that the rule of a line adds for a line alone; there are none if it does not match. -/
def nodes (line : TokenLine) : List Node :=
  match line.read with
  | some ⟨.matched, _, nodes, _⟩ => nodes
  | _ => []

/-- Whether the rule of a line does anything but match for a line alone. -/
def fails (line : TokenLine) : Bool :=
  line.read.all (·.verdict ≠ .matched)

/-- The tokens of a line are those that it has on its own. -/
private theorem spells_alone (line : TokenLine) : Spells line.alone 0 line.tokens := by
  have hgeneral : ∀ (before rest : List Token), line.tokens = before ++ rest →
      Spells line.alone before.length rest := by
    intro before rest h
    induction rest generalizing before with
    | nil => trivial
    | cons token rest ih =>
      refine ⟨?_, ?_⟩
      · rw [alone, h, List.getElem?_append_right (Nat.le_refl _), Nat.sub_self]
        rfl
      · have hrest := ih (before ++ [token]) (by rw [h, List.append_assoc]; rfl)
        rwa [List.length_append] at hrest
  exact hgeneral [] line.tokens rfl

/-- A line of the grammar is read alone. -/
private theorem read_of_line {line : TokenLine} {nodes : List Node}
    (h : Grammar.Line line.body nodes) :
    line.read = some (success (Line.behind (0 + line.body.length) line.ending) nodes) :=
  (Line.run_line_eq_success_iff line.inside line.ends line.spells_alone (Nat.lt_succ_self _)).mpr
    ⟨h, rfl⟩

/-- A line of the grammar has its nodes, and does not fail. -/
theorem nodes_of_line {line : TokenLine} {nodes : List Node} (h : Grammar.Line line.body nodes) :
    line.nodes = nodes ∧ line.fails = false := by
  unfold TokenLine.nodes fails
  rw [read_of_line h]
  exact ⟨rfl, rfl⟩

/-- Any other line fails alone. -/
theorem fails_of_not_line {line : TokenLine} (h : ¬ ∃ nodes, Grammar.Line line.body nodes) :
    line.nodes = [] ∧ line.fails = true := by
  rcases run_cases line.spells_alone (Nat.lt_succ_self _) with ⟨nodes, hline, -⟩ |
    ⟨-, position, nodes, fault, hread, -⟩
  · exact absurd ⟨nodes, hline⟩ h
  · unfold TokenLine.nodes fails read
    rw [hread]
    exact ⟨rfl, rfl⟩

/-- A line can be read exactly if it is one of the grammar. -/
theorem line_nodes_of_not_fails {line : TokenLine} (h : line.fails = false) :
    Grammar.Line line.body line.nodes := by
  by_cases hline : ∃ nodes, Grammar.Line line.body nodes
  · obtain ⟨nodes, hline⟩ := hline
    rwa [(nodes_of_line hline).1]
  · rw [(fails_of_not_line hline).2] at h
    cases h

/-- The rule of a line always comes to an end. -/
theorem exists_read (line : TokenLine) : ∃ outcome, line.read = some outcome := by
  rcases run_cases line.spells_alone (Nat.lt_succ_self _) with
    ⟨_, -, hread⟩ | ⟨-, _, _, _, hread, -⟩
  · exact ⟨_, hread⟩
  · exact ⟨_, hread⟩

/-- What is wrong with a line alone. -/
def complaints (line : TokenLine) : List SyntaxError :=
  match line.read with
  | some outcome => outcome.complaints
  | none => []

/-- Nothing is wrong with a line of the grammar. -/
theorem complaints_of_line {line : TokenLine} {nodes : List Node}
    (h : Grammar.Line line.body nodes) : line.complaints = [] := by
  unfold TokenLine.complaints
  rw [read_of_line h]
  rfl

/-- Tokens that are the same one by one are so wherever they stand. -/
private theorem same_of_spells {tokens tokens' : Nat → Token} {start start' : Nat}
    {spelling spelling' : List Token} (h : Spells tokens start spelling)
    (h' : Spells tokens' start' spelling') (hsame : List.Forall₂ Token.Same spelling spelling')
    {i : Nat} (hi : i < spelling.length) : (tokens (start + i)).Same (tokens' (start' + i)) := by
  induction hsame generalizing start start' i with
  | nil => exact absurd hi (Nat.not_lt_zero i)
  | cons htoken _ ih =>
    -- the induction is on the tokens, and their numbers go up with it
    obtain ⟨hfirst, hrest⟩ := h
    obtain ⟨hfirst', hrest'⟩ := h'
    cases i with
    | zero =>
      show (tokens start).Same (tokens' start')
      rwa [hfirst, hfirst']
    | succ i =>
      have hnext := ih hrest hrest' (Nat.lt_of_succ_lt_succ hi)
      rwa [Nat.add_assoc, Nat.add_assoc, Nat.add_comm 1 i] at hnext

/-- Where a line stands it has the errors that another one with the same tokens has alone. -/
theorem complaints_of_run {line other : TokenLine} {tokens : Nat → Token} {budget start : Nat}
    {outcome : Outcome} (hsame : List.Forall₂ Token.Same line.tokens other.tokens)
    (hspells : Spells tokens start line.tokens) (hbudget : line.body.length < budget)
    (hrun : Line.line.run (.ofTokens tokens) budget start = some outcome) :
    other.complaints = outcome.complaints := by
  have hlength : line.body.length = other.body.length := by
    simpa [TokenLine.tokens] using hsame.length_eq
  -- the two lines have the same tokens, and end at the same distance
  have hline : SameLine tokens other.alone start 0 line.body.length := by
    refine ⟨fun i hi => ?_, ?_⟩
    · refine same_of_spells hspells other.spells_alone hsame ?_
      rw [TokenLine.tokens, List.length_append, List.length_singleton]
      omega
    · rw [tokens_at_end hspells]
      exact line.ends
  obtain ⟨outcome', hread⟩ := other.exists_read
  have hcomplaints : other.complaints = outcome'.complaints := by
    unfold TokenLine.complaints
    rw [hread]
  rw [hcomplaints]
  exact Line.complaints_run_line hline hbudget (by omega) hrun hread

/-- **Lines with the same tokens have the same errors.** -/
theorem complaints_congr {line other : TokenLine}
    (h : List.Forall₂ Token.Same line.tokens other.tokens) :
    other.complaints = line.complaints := by
  obtain ⟨outcome, hread⟩ := line.exists_read
  have hline : line.complaints = outcome.complaints :=
    complaints_of_run (List.forall₂_same.mpr fun token _ => Token.Same.refl token)
      line.spells_alone (Nat.lt_succ_self _) hread
  rw [hline]
  exact complaints_of_run h line.spells_alone (Nat.lt_succ_self _) hread

/-! ### Line after line -/

variable {tokens : Nat → Token} {budget start : Nat}

/-- Skipping a line leads behind it, but not behind the end of the source. -/
theorem skipPast_line {body : List Token} {ending : Token}
    (hbody : ∀ token ∈ body, ¬ EndsLine token) (hending : EndsLine ending)
    (hspells : Spells tokens start (body ++ [ending])) (hbudget : body.length < budget) :
    Rule.skipPast (.ofTokens tokens) .linebreak budget start =
      some (Line.behind (start + body.length) ending) := by
  induction body generalizing start budget with
  | nil =>
    -- the line ends here, with a break that is skipped or with the end of the source
    obtain ⟨budget, rfl⟩ := Nat.exists_eq_add_one_of_ne_zero (Nat.ne_zero_of_lt hbudget)
    obtain rfl := spells_singleton_iff.mp hspells
    rw [Rule.skipPast_succ, Line.behind]
    rcases hending with h | h
    · rw [h]
      rfl
    · rw [h]
      rfl
  | cons token body ih =>
    -- a token inside the line is neither, so it is skipped
    obtain ⟨budget, rfl⟩ := Nat.exists_eq_add_one_of_ne_zero (Nat.ne_zero_of_lt hbudget)
    obtain ⟨rfl, hspells⟩ := hspells
    obtain ⟨hinside, hbody⟩ := List.forall_mem_cons.mp hbody
    have hend : (tokens start).kind ≠ .sourceEnd := fun h => hinside (.inr h)
    have hbreak : (tokens start).kind ≠ .linebreak := fun h => hinside (.inl h)
    rw [add_length_cons, Rule.skipPast_succ, if_neg hend, if_neg hbreak]
    exact ih hbody hspells (Nat.lt_of_succ_lt_succ hbudget)

/-- What is told about some lines: one error for each that fails, at one of its tokens. -/
def Told (lines : List TokenLine) (errors : List SyntaxFault) : Prop :=
  List.Forall₂ (fun line fault => ∃ token ∈ line.tokens, fault.location = token.location)
    (lines.filter fails) errors

/-- What is told about lines one behind the other is what is told about each. -/
theorem told_append {first rest : List TokenLine} {errors errors' : List SyntaxFault}
    (h : Told first errors) (h' : Told rest errors') :
    Told (first ++ rest) (errors ++ errors') := by
  unfold Told
  rw [List.filter_append]
  exact List.rel_append h h'

/-- All that is told about some lines: each has the errors that it has alone. -/
structure ToldAlone (lines : List TokenLine) (errors : List SyntaxFault) : Prop where
  told : Told lines errors
  complaints : errors.map SyntaxFault.error = lines.flatMap TokenLine.complaints

/-- So is all that is told. -/
theorem ToldAlone.append {first rest : List TokenLine} {errors errors' : List SyntaxFault}
    (h : ToldAlone first errors) (h' : ToldAlone rest errors') :
    ToldAlone (first ++ rest) (errors ++ errors') := by
  refine ⟨told_append h.told h'.told, ?_⟩
  rw [List.map_append, List.flatMap_append, h.complaints, h'.complaints]

/-- Nothing is told about a line of the grammar. -/
private theorem toldAlone_of_line {line : TokenLine} {nodes : List Node}
    (h : Grammar.Line line.body nodes) : ToldAlone [line] [] := by
  have hnone : [line].filter fails = [] :=
    List.filter_cons_of_neg (by rw [(nodes_of_line h).2]; decide)
  refine ⟨?_, ?_⟩
  · rw [Told, hnone]
    exact .nil
  · rw [List.flatMap_singleton, complaints_of_line h]
    rfl

/-- One error is told about a line that fails. -/
private theorem toldAlone_of_fails {line : TokenLine} {position : Nat} {nodes : List Node}
    {fault : SyntaxFault} (hspells : Spells tokens start line.tokens)
    (hbudget : line.body.length < budget) (h : line.fails = true)
    (hrun : Line.line.run (.ofTokens tokens) budget start =
      some ⟨.failed, position, nodes, [fault]⟩)
    (hfault : ∃ token ∈ line.tokens, fault.location = token.location) :
    ToldAlone [line] [fault] := by
  have hsome : [line].filter fails = [line] := List.filter_cons_of_pos h
  refine ⟨?_, ?_⟩
  · rw [Told, hsome]
    exact .cons hfault .nil
  · have hsame : List.Forall₂ Token.Same line.tokens line.tokens :=
      List.forall₂_same.mpr fun token _ => Token.Same.refl token
    rw [List.flatMap_singleton, complaints_of_run hsame hspells hbudget hrun]
    rfl

/-- **Reading a line or skipping it.** Either way what follows is the next line. -/
theorem exists_run_recover {line : TokenLine} (hspells : Spells tokens start line.tokens)
    (hbudget : line.body.length < budget) :
    ∃ errors, (Rule.recover Line.line .linebreak).run (.ofTokens tokens) budget start =
        some ⟨.matched, Line.behind (start + line.body.length) line.ending, line.nodes, errors⟩ ∧
      ToldAlone [line] errors := by
  -- whether the line is one of the grammar decides both how it is read here and how alone
  rcases run_cases hspells hbudget with
    ⟨nodes, hline, hrun⟩ | ⟨hnone, position, nodes, fault, hrun, hfault⟩
  · obtain ⟨rfl, -⟩ := nodes_of_line hline
    exact ⟨[], Rule.run_recover_eq_some_iff.mpr ⟨_, hrun, .inr ⟨Verdict.noConfusion, rfl⟩⟩,
      toldAlone_of_line hline⟩
  · -- any other line fails, and is skipped
    obtain ⟨hnodes, hfails⟩ := fails_of_not_line hnone
    have hskip := skipPast_line line.inside line.ends hspells hbudget
    exact ⟨[fault], Rule.run_recover_eq_some_iff.mpr
      ⟨_, hrun, .inl ⟨rfl, _, hskip, by rw [hnodes]⟩⟩,
      toldAlone_of_fails hspells hbudget hfails hrun hfault⟩

/-- At the end of the source there is nothing left to repeat. -/
private theorem runTimes_end {exhausted : Nat → Nat → Option Outcome} {rounds : Nat}
    (hend : (tokens start).kind = .sourceEnd) (hbudget : 0 < budget) (hrounds : 0 < rounds) :
    Rule.runTimes ((Rule.recover Line.line .linebreak).run (.ofTokens tokens) budget) exhausted
      rounds 0 start = some (success start []) := by
  have hline : Line.line.run (.ofTokens tokens) budget start = some (success start []) := by
    have hempty : Grammar.Line [] [] := .unlabelled id .empty
    have hinside : ∀ token ∈ ([] : List Token), ¬ EndsLine token := List.forall_mem_nil _
    refine (Line.run_line_eq_success_iff hinside (.inr hend) (spells_singleton_iff.mpr rfl)
      hbudget).mpr ⟨hempty, ?_⟩
    rw [Line.behind, hend]
    rfl
  -- the round matches and consumes nothing, so it is the last one
  have hround : (Rule.recover Line.line .linebreak).run (.ofTokens tokens) budget start =
      some (success start []) :=
    Rule.run_recover_eq_some_iff.mpr ⟨_, hline, .inr ⟨Verdict.noConfusion, rfl⟩⟩
  obtain ⟨rounds, rfl⟩ := Nat.exists_eq_add_one_of_ne_zero (Nat.ne_zero_of_lt hrounds)
  exact Rule.runTimes_of_idle hround

/-- The last line of a source is read or skipped, and then there is nothing left to repeat. -/
private theorem exists_runTimes_last {exhausted : Nat → Nat → Option Outcome} {line : TokenLine}
    {rounds : Nat} (hend : line.ending.kind = .sourceEnd)
    (hspells : Spells tokens start line.tokens) (hrounds : line.tokens.length ≤ rounds)
    (hbudget : line.tokens.length ≤ budget) :
    ∃ errors, Rule.runTimes ((Rule.recover Line.line .linebreak).run (.ofTokens tokens) budget)
        exhausted rounds 0 start =
          some ⟨.matched, start + line.body.length, line.nodes, errors⟩ ∧
      (tokens (start + line.body.length)).kind = .sourceEnd ∧ ToldAlone [line] errors := by
  have hlength : line.tokens.length = line.body.length + 1 := List.length_append
  have hkind : (tokens (start + line.body.length)).kind = .sourceEnd := by
    rw [tokens_at_end hspells, hend]
  have hrest : ∀ left, 0 < left →
      Rule.runTimes ((Rule.recover Line.line .linebreak).run (.ofTokens tokens) budget) exhausted
        left 0 (start + line.body.length) = some (success (start + line.body.length) []) :=
    fun left hleft => runTimes_end hkind (by omega) hleft
  by_cases hbody : line.body = []
  · -- an empty last line is the end of the source
    have hempty : Grammar.Line line.body [] := by
      rw [hbody]
      exact .unlabelled id .empty
    have hall := hrest rounds (by omega)
    rw [(nodes_of_line hempty).1]
    rw [hbody] at hkind hall ⊢
    exact ⟨[], hall, hkind, toldAlone_of_line hempty⟩
  · -- what is in front of the end is read or skipped, and the end is left
    have hpositive := List.length_pos_iff.mpr hbody
    have hbehind : Line.behind (start + line.body.length) line.ending =
        start + line.body.length := by
      rw [Line.behind, hend]
      rfl
    obtain ⟨errors, hround, htold⟩ := exists_run_recover hspells (show _ < budget by omega)
    rw [hbehind] at hround
    obtain ⟨rounds, rfl⟩ := Nat.exists_eq_add_one_of_ne_zero (show rounds ≠ 0 by omega)
    have hall := Rule.runTimes_of_forward hround (by omega) (hrest rounds (by omega))
    rw [List.append_nil, List.append_nil] at hall
    exact ⟨errors, hall, hkind, htold⟩

/-- **Line after line.** All lines of a source are read or skipped, each as if it stood alone, and
    what follows them is the end of the source. -/
theorem exists_runTimes {exhausted : Nat → Nat → Option Outcome} {lines : List TokenLine}
    {rounds : Nat} (hclosed : Closed lines)
    (hspells : Spells tokens start (lines.flatMap TokenLine.tokens))
    (hrounds : (lines.flatMap TokenLine.tokens).length ≤ rounds)
    (hbudget : (lines.flatMap TokenLine.tokens).length ≤ budget) :
    ∃ position errors,
      Rule.runTimes ((Rule.recover Line.line .linebreak).run (.ofTokens tokens) budget) exhausted
        rounds 0 start = some ⟨.matched, position, lines.flatMap nodes, errors⟩ ∧
      position + 1 = start + (lines.flatMap TokenLine.tokens).length ∧
      (tokens position).kind = .sourceEnd ∧ ToldAlone lines errors := by
  -- the lines follow each other, so each is a round that consumes at least the token that ends it
  induction hclosed generalizing start rounds with
  | @last line hend =>
    rw [List.flatMap_singleton] at hspells hrounds hbudget ⊢
    rw [List.flatMap_singleton]
    have hlength : line.tokens.length = line.body.length + 1 := List.length_append
    obtain ⟨errors, hall, hkind, htold⟩ := exists_runTimes_last hend hspells hrounds hbudget
    exact ⟨_, errors, hall, by omega, hkind, htold⟩
  | @next line lines hbreak _ ih =>
    rw [List.flatMap_cons] at hspells hrounds hbudget ⊢
    rw [List.flatMap_cons]
    have hlength : line.tokens.length = line.body.length + 1 := List.length_append
    rw [List.length_append] at hrounds hbudget ⊢
    obtain ⟨hline, hrest⟩ := spells_append_iff.mp hspells
    -- the line is taken away with its break, so the next one starts behind it
    have hbehind : Line.behind (start + line.body.length) line.ending =
        start + line.tokens.length := by
      rw [Line.behind, if_pos hbreak, hlength, Nat.add_assoc]
    obtain ⟨errors, hround, htold⟩ := exists_run_recover hline (show _ < budget by omega)
    rw [hbehind] at hround
    obtain ⟨rounds, rfl⟩ := Nat.exists_eq_add_one_of_ne_zero (show rounds ≠ 0 by omega)
    have hrounds' : (lines.flatMap TokenLine.tokens).length ≤ rounds := by omega
    obtain ⟨position, errors', hrun, hposition, hend, htold'⟩ := ih hrest hrounds' (by omega)
    have hforward : start < start + line.tokens.length := by omega
    exact ⟨position, _, Rule.runTimes_of_forward hround hforward hrun, by omega, hend,
      htold.append htold'⟩

/-- The rule of a whole source reads its lines up to the end. -/
theorem exists_run_document {lines : List TokenLine} (hclosed : Closed lines)
    (hspells : Spells tokens start (lines.flatMap TokenLine.tokens))
    (hbudget : (lines.flatMap TokenLine.tokens).length ≤ budget) :
    ∃ errors, Line.document.run (.ofTokens tokens) budget start =
        some ⟨.matched, start + (lines.flatMap TokenLine.tokens).length, lines.flatMap nodes,
          errors⟩ ∧
      ToldAlone lines errors := by
  rw [Line.document, Rule.run]
  obtain ⟨position, errors, hmany, hposition, hend, htold⟩ :=
    exists_runTimes hclosed hspells hbudget hbudget
  have hatom : Rule.runAll (.ofTokens tokens) budget [.atom .sourceEnd] position =
      some (success (position + 1) []) :=
    Rule.runAll_singleton_eq_success_iff.mpr (Line.run_atom_eq_success_iff.mpr ⟨hend, rfl, rfl⟩)
  refine ⟨errors, Rule.runAll_cons_eq_some_iff.mpr
    ⟨⟨.matched, position, lines.flatMap nodes, errors⟩, ?_, .inl ⟨rfl, _, hatom, ?_⟩⟩, htold⟩
  · rw [Rule.many, Rule.run]
    exact hmany
  · rw [← hposition]
    show _ = Outcome.mk .matched (position + 1) (_ ++ []) (errors ++ [])
    rw [List.append_nil, List.append_nil]

/-- Errors at tokens of different lines are on different lines of the source, in order. -/
theorem Told.pairwise {lines : List TokenLine} {errors : List SyntaxFault} {number : Nat}
    (htold : Told lines errors) (hnumbered : Numbered number lines) :
    (errors.map (·.location.line)).Pairwise (· < ·) ∧
      ∀ fault ∈ errors, number ≤ fault.location.line := by
  -- the errors of later lines are behind the first line, which carries the induction
  induction lines generalizing errors number with
  | nil =>
    cases htold
    exact ⟨.nil, List.forall_mem_nil _⟩
  | cons line lines ih =>
    obtain ⟨hline, hlines⟩ := hnumbered
    unfold Told at htold
    by_cases hfails : line.fails
    · -- the first line fails: the first error is on it, and the others are behind
      rw [List.filter_cons_of_pos hfails] at htold
      cases htold with
      | @cons _ fault _ errors hfirst hrest =>
        obtain ⟨token, htoken, hlocation⟩ := hfirst
        obtain ⟨hpairwise, hbehind⟩ := ih hrest hlines
        have hfault : fault.location.line = number := by
          rw [hlocation]
          exact hline token htoken
        refine ⟨List.pairwise_cons.mpr ⟨?_, hpairwise⟩, List.forall_mem_cons.mpr
          ⟨Nat.le_of_eq hfault.symm, fun other h => Nat.le_of_succ_le (hbehind other h)⟩⟩
        intro other hother
        obtain ⟨fault', hfault', rfl⟩ := List.mem_map.mp hother
        show fault.location.line < fault'.location.line
        rw [hfault]
        exact hbehind fault' hfault'
    · -- the first line has no error
      rw [List.filter_cons_of_neg hfails] at htold
      obtain ⟨hpairwise, hbehind⟩ := ih htold hlines
      exact ⟨hpairwise, fun other h => Nat.le_of_succ_le (hbehind other h)⟩

end TokenLine

/-! ### Sources -/

/-- What is left of a source that has been read: the place behind its end, the nodes of the lines
    that can be read, and one error for each of the others, on different lines of the source. -/
structure Context.ReadsLines (context : Context) (source : String) : Prop where
  position : context.position = (Lexer.ofSource source).tokens.1.length
  nodes : context.nodes = (TokenLine.ofSource source).flatMap TokenLine.nodes
  errors : TokenLine.Told (TokenLine.ofSource source) context.errors
  increasing : (context.errors.map (·.location.line)).Pairwise (· < ·)

/-- Reading a source always comes to an end, and that is a match. The errors are those that its
    lines have alone. -/
theorem Context.exists_apply_document (source : String) :
    ∃ context, (Context.ofSource source).apply Line.document = .ok (.matched, context) ∧
      context.ReadsLines source ∧ context.errors.map SyntaxFault.error =
        (TokenLine.ofSource source).flatMap TokenLine.complaints := by
  obtain ⟨errors, hrun, htold⟩ := TokenLine.exists_run_document (TokenLine.closed_ofSource source)
    (TokenLine.spells_ofSource source) (TokenLine.length_tokens_ofSource source)
  obtain ⟨context, happly, -, -, hposition, hnodes, herrors⟩ :=
    (Context.reads_ofSource source).exists_apply hrun
  have herrors' : context.errors = errors := herrors
  refine ⟨context, happly, ⟨?_, hnodes, ?_, ?_⟩, ?_⟩
  · -- all tokens of all lines have been consumed
    rw [hposition, ← TokenLine.flatMap_tokens_ofSource, Nat.zero_add]
  · -- one error for each line that fails, at a token of it
    rw [herrors']
    exact htold.told
  · -- the lines of the errors go up
    rw [herrors']
    exact (htold.told.pairwise (TokenLine.numbered_ofSource source)).1
  · -- the errors are those of the lines alone
    rw [herrors']
    exact htold.complaints

/-- The result of reading a source is made of what is left of it, with no error added. -/
theorem exists_parse (source : String) :
    ∃ context result,
      (Context.ofSource source).apply Line.document = .ok (.matched, context) ∧
      context.ReadsLines source ∧ parse source = .ok result ∧
      result.product = .root context.nodes ∧
      result.notices = context.errors.map SyntaxFault.notice := by
  obtain ⟨context, happly, hreads, -⟩ := Context.exists_apply_document source
  -- a match needs no error of its own
  have hrequire : context.requireEnd .matched = context := if_neg fun h => h.1 rfl
  have hparse : parse source = .ok
      { product := .root context.nodes
        notices := context.errors.map SyntaxFault.notice
        log := [Stage.parsing.record .debug "parsed source"
          [("statements", toString (Node.root context.nodes).children.length),
            ("nodes", toString (Node.root context.nodes).size),
            ("errors", toString context.errors.length)]] } := by
    unfold parse
    rw [happly]
    show Except.ok _ = _
    rw [hrequire]
  exact ⟨context, _, happly, hreads, hparse, rfl, rfl⟩

/-- The nodes of a source are those of its lines. -/
theorem product_parse {source : String} {result : StageResult Node}
    (hparse : parse source = .ok result) :
    result.product = .root ((TokenLine.ofSource source).flatMap TokenLine.nodes) := by
  obtain ⟨context, result', -, hreads, hparse', hproduct, -⟩ := exists_parse source
  obtain rfl := Except.ok.inj (hparse.symm.trans hparse')
  rw [hproduct, hreads.nodes]

/-- What is wrong with a source is what is wrong with its lines. -/
theorem problems_parse {source : String} {result : StageResult Node}
    (hparse : parse source = .ok result) : result.notices.map Notice.problem =
      ((TokenLine.ofSource source).flatMap TokenLine.complaints).map .syntactic := by
  obtain ⟨context, result', happly, -, hparse', -, hnotices⟩ := exists_parse source
  obtain rfl := Except.ok.inj (hparse.symm.trans hparse')
  obtain ⟨context', happly', -, herrors⟩ := Context.exists_apply_document source
  obtain rfl := (Prod.mk.inj (Except.ok.inj (happly.symm.trans happly'))).2
  rw [hnotices, ← herrors, List.map_map, List.map_map]
  rfl

/-- The errors of a source that has been read are counted by the lines that fail. -/
theorem Context.ReadsLines.countP_isError {context : Context} {source : String}
    (h : context.ReadsLines source) :
    (context.errors.map SyntaxFault.notice).countP Notice.isError =
      (TokenLine.ofSource source).countP TokenLine.fails := by
  have hlength : ((TokenLine.ofSource source).filter TokenLine.fails).length =
      context.errors.length := h.errors.length_eq
  have hall : ∀ notice ∈ context.errors.map SyntaxFault.notice, notice.isError := by
    intro notice hnotice
    obtain ⟨fault, -, rfl⟩ := List.mem_map.mp hnotice
    rfl
  rw [List.countP_eq_length.mpr hall, List.length_map, ← hlength, List.countP_eq_length_filter]

/-- All lines of a source that can be read are lines of the grammar, and its tree is made of their
    nodes. -/
theorem lines_of_parse {source : String} {result : StageResult Node} {tree : Node}
    (hparse : parse source = .ok result) (hout : result.outcome = .ok tree) :
    (∀ line ∈ TokenLine.ofSource source, Grammar.Line line.body line.nodes) ∧
      tree = .root ((TokenLine.ofSource source).flatMap TokenLine.nodes) := by
  obtain ⟨context, result', -, hreads, hparse', -, hnotices⟩ := exists_parse source
  obtain rfl := Except.ok.inj (hparse.symm.trans hparse')
  obtain ⟨herrors, rfl⟩ := StageResult.outcome_eq_ok_iff.mp hout
  -- without errors no line fails
  have hcount : (TokenLine.ofSource source).countP TokenLine.fails = 0 := by
    rw [← hreads.countP_isError, ← hnotices]
    exact herrors
  refine ⟨fun line hline => ?_, product_parse hparse⟩
  exact TokenLine.line_nodes_of_not_fails
    (Bool.eq_false_iff.mpr (List.countP_eq_zero.mp hcount line hline))

/-- **Errors are local to their lines.** Reading a source ends behind its end, with the nodes that
    each line has on its own and one error for each line that fails, at a token of that line; no
    other error is added. So reading fails exactly if a line does, and counts such lines. -/
theorem parse_lines (source : String) :
    ∃ context result,
      (Context.ofSource source).apply Line.document = .ok (.matched, context) ∧
      context.ReadsLines source ∧
      parse source = .ok result ∧ result.product = .root context.nodes ∧
      result.notices = context.errors.map SyntaxFault.notice ∧
      ((∃ failure, result.outcome = .error failure) ↔
        ∃ line ∈ TokenLine.ofSource source, line.fails) ∧
      ∀ failure, result.outcome = .error failure →
        failure.errors = (TokenLine.ofSource source).countP TokenLine.fails := by
  obtain ⟨context, result, happly, hreads, hparse, hproduct, hnotices⟩ := exists_parse source
  have hcount : result.errors = (TokenLine.ofSource source).countP TokenLine.fails := by
    rw [StageResult.errors, hnotices]
    exact hreads.countP_isError
  refine ⟨context, result, happly, hreads, hparse, hproduct, hnotices, ?_, ?_⟩
  · rw [← List.countP_pos_iff, ← hcount, Nat.pos_iff_ne_zero]
    constructor
    · rintro ⟨failure, hfailure⟩
      exact (StageResult.outcome_eq_error_iff.mp hfailure).1
    · intro h
      exact ⟨_, StageResult.outcome_eq_error_iff.mpr ⟨h, rfl⟩⟩
  · intro failure hfailure
    obtain ⟨-, rfl⟩ := StageResult.outcome_eq_error_iff.mp hfailure
    exact hcount

/-! ### Formats that are recorded -/

/-- Only instructions have a format, and reading a statement records none. -/
theorem Grammar.Statement.recordsOwnFormat {tokens : List Token} {nodes : List Node}
    (h : Statement tokens nodes) : ∀ node ∈ nodes, node.RecordsOwnFormat := by
  cases h with
  | empty => exact List.forall_mem_nil _
  | directive =>
    rw [List.forall_mem_singleton]
    intro mnemonic recorded flags? hkind
    cases hkind
  | instruction =>
    rw [List.forall_mem_singleton]
    intro mnemonic recorded flags? hkind
    cases hkind

/-- Statements record no format when they are read. -/
theorem Grammar.Line.recordsOwnFormat {tokens : List Token} {nodes : List Node}
    (h : Grammar.Line tokens nodes) : ∀ node ∈ nodes, node.RecordsOwnFormat := by
  have hlabel : ∀ word, (Node.leaf .labelDefinition word).RecordsOwnFormat := by
    intro word mnemonic recorded flags? hkind
    cases hkind
  cases h with
  | unlabelled _ hstatement => exact hstatement.recordsOwnFormat
  | labelled _ _ hstatement =>
    exact List.forall_mem_cons.mpr ⟨hlabel _, hstatement.recordsOwnFormat⟩
  | labelledColon _ _ hstatement =>
    exact List.forall_mem_cons.mpr ⟨hlabel _, hstatement.recordsOwnFormat⟩

/-- What holds of the nodes of every line of the grammar holds of those that are read. -/
theorem TokenLine.forall_nodes {property : Node → Prop}
    (h : ∀ tokens nodes, Grammar.Line tokens nodes → ∀ node ∈ nodes, property node)
    (line : TokenLine) : ∀ node ∈ line.nodes, property node := by
  by_cases hline : ∃ nodes, Grammar.Line line.body nodes
  · obtain ⟨nodes, hline⟩ := hline
    rw [(nodes_of_line hline).1]
    exact h _ _ hline
  · rw [(fails_of_not_line hline).1]
    exact List.forall_mem_nil _

/-- What holds of the nodes of every line of the grammar holds of the statements and labels of a
    source. -/
theorem forall_children_of_parse {property : Node → Prop} {source : String}
    {result : StageResult Node}
    (h : ∀ tokens nodes, Grammar.Line tokens nodes → ∀ node ∈ nodes, property node)
    (hparse : parse source = .ok result) : ∀ node ∈ result.product.children, property node := by
  rw [product_parse hparse]
  intro node hnode
  obtain ⟨line, -, hmem⟩ := List.mem_flatMap.mp hnode
  exact line.forall_nodes h node hmem

/-- Reading a source records no format. -/
theorem recordsOwnFormat_of_parse {source : String} {result : StageResult Node}
    (hparse : parse source = .ok result) :
    ∀ node ∈ result.product.children, node.RecordsOwnFormat :=
  forall_children_of_parse (fun _ _ h => h.recordsOwnFormat) hparse

/-- The analysis of a tree records formats of their own. -/
theorem Node.recordsOwnFormat_of_analyze {tree root : Node}
    (h : ∀ node ∈ tree.children, node.RecordsOwnFormat) (hout : tree.analyze.outcome = .ok root) :
    ∀ node ∈ root.children, node.RecordsOwnFormat := by
  rw [children_of_analyze hout]
  intro node hnode
  obtain ⟨node, hmem, rfl⟩ := List.mem_map.mp hnode
  exact (h node hmem).recordFormat

/-- **Formats belong to their instructions.** When a source assembles, every statement that is
    encoded has no format recorded or one of its own. -/
theorem Assembly.Stages.recordsOwnFormat {source : String} {tree root : Node}
    {symbols : SymbolTable} {image : Image} (h : Stages source tree root symbols image) :
    ∀ node ∈ root.children, node.RecordsOwnFormat := by
  obtain ⟨parsed, hparse, hout⟩ := h.parsed
  obtain ⟨-, rfl⟩ := StageResult.outcome_eq_ok_iff.mp hout
  exact Node.recordsOwnFormat_of_analyze (recordsOwnFormat_of_parse hparse) h.analyzed

end LC3
