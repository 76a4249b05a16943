import LC3.Proofs.LineExtent
import LC3.Proofs.Reading
import LC3.Proofs.TokenLines

namespace LC3

/-!
# The lines of a source are read

Where a line of a source starts, the rule of a line matches if the line is one of the grammar, and
fails at one of its tokens if it is not.

* `TokenLine.run_cases` — what comes of a line, wherever it stands.
* `Context.apply_line_matched_iff` — the lines of a source that are read, and their nodes.
-/

open Grammar
open Outcome (success)

/-- Tokens that stand at a place are those of the sequence. -/
theorem Grammar.Spells.mem {tokens : Nat → Token} {start index : Nat} {spelling : List Token}
    (h : Spells tokens start spelling) (hstart : start ≤ index)
    (hindex : index < start + spelling.length) : tokens index ∈ spelling := by
  induction spelling generalizing start with
  | nil =>
    rw [List.length_nil] at hindex
    omega
  | cons token rest ih =>
    obtain ⟨rfl, hrest⟩ := h
    rcases Nat.eq_or_lt_of_le hstart with rfl | hlt
    · exact List.mem_cons_self
    · rw [List.length_cons] at hindex
      exact List.mem_cons_of_mem _ (ih hrest hlt (by omega))

namespace TokenLine

variable {tokens : Nat → Token} {budget start : Nat} {line : TokenLine}

/-- The last token of a line ends it. -/
theorem tokens_at_end (h : Spells tokens start line.tokens) :
    tokens (start + line.body.length) = line.ending :=
  spells_singleton_iff.mp (spells_append_iff.mp h).2

/-- **What comes of a line.** A line of the grammar matches, with the nodes that the grammar gives
    it. Any other line fails, with one error at one of its tokens. -/
theorem run_cases (hspells : Spells tokens start line.tokens)
    (hbudget : line.body.length < budget) :
    (∃ nodes, Grammar.Line line.body nodes ∧
      Line.line.run (.ofTokens tokens) budget start =
        some (success (Line.behind (start + line.body.length) line.ending) nodes)) ∨
    (¬ ∃ nodes, Grammar.Line line.body nodes) ∧
      ∃ position nodes fault, Line.line.run (.ofTokens tokens) budget start =
          some ⟨.failed, position, nodes, [fault]⟩ ∧
        ∃ token ∈ line.tokens, fault.location = token.location := by
  have hmatches : ∀ {position nodes}, Line.line.run (.ofTokens tokens) budget start =
        some (success position nodes) ↔ Grammar.Line line.body nodes ∧
          position = Line.behind (start + line.body.length) line.ending :=
    Line.run_line_eq_success_iff line.inside line.ends hspells hbudget
  have hstop : EndsLine (tokens (start + line.body.length)) := by
    rw [tokens_at_end hspells]
    exact line.ends
  have hbudget' : start + line.body.length - start < budget := by omega
  obtain ⟨outcome, hrun, hlocated⟩ :=
    Line.exists_run_line hstop (Nat.le_add_right start _) hbudget'
  -- a line has an outcome, and as a plain rule it has one error if it fails and none if not
  have hhonors := Rule.honors_run hrun
  cases hverdict : outcome.verdict with
  | rejected => exact absurd hverdict (Line.verdict_run_line hrun)
  | matched =>
    rw [hhonors.eq_success rfl hverdict] at hrun
    obtain ⟨hline, hposition⟩ := hmatches.mp hrun
    rw [hposition] at hrun
    exact .inl ⟨_, hline, hrun⟩
  | failed =>
    -- the only error is located at a token of the line, and a line of the grammar has none
    obtain ⟨fault, hfault⟩ := hhonors.single rfl hverdict
    obtain ⟨index, hstart, hlimit, hlocation⟩ :=
      hlocated fault (by rw [hfault]; exact List.mem_singleton_self fault)
    obtain ⟨verdict, position, nodes, errors⟩ := outcome
    obtain rfl : verdict = .failed := hverdict
    obtain rfl : errors = [fault] := hfault
    refine .inr ⟨?_, position, nodes, fault, hrun, tokens index, ?_, hlocation⟩
    · rintro ⟨nodes', hline⟩
      have := hrun.symm.trans (hmatches.mpr ⟨hline, rfl⟩)
      cases this
    · refine hspells.mem hstart ?_
      rw [TokenLine.tokens, List.length_append, List.length_singleton]
      omega

variable {source : String} {before after : List TokenLine}

/-- A line of a source stands behind the tokens of the lines before it. -/
theorem spells_of_mem (h : ofSource source = before ++ line :: after) :
    Spells (Lexer.ofSource source).nth (before.flatMap TokenLine.tokens).length line.tokens := by
  have hall := spells_ofSource source
  rw [h, List.flatMap_append, List.flatMap_cons, spells_append_iff, spells_append_iff,
    Nat.zero_add] at hall
  exact hall.2.1

/-- A line of a source is shorter than the source, if the end of the source counts. -/
theorem length_body_le (h : ofSource source = before ++ line :: after) :
    line.body.length ≤ source.toList.length := by
  have hall := length_tokens_ofSource source
  rw [h, List.flatMap_append, List.flatMap_cons, List.length_append, List.length_append] at hall
  simp only [TokenLine.tokens, List.length_append, List.length_singleton] at hall
  omega

end TokenLine

/-- **Lines of the grammar are read.** In a context at the beginning of a line of its source, the
    rule of a line always comes to an end. It matches exactly if the line is one of the grammar, and
    then it adds exactly the nodes that the grammar gives the line. -/
theorem Context.apply_line_matched_iff {context : Context} {source : String} {line : TokenLine}
    {before after : List TokenLine} (hline : TokenLine.ofSource source = before ++ line :: after)
    (hreads : context.Reads source)
    (hposition : context.position = (before.flatMap TokenLine.tokens).length) :
    ∃ verdict behind, context.apply Line.line = .ok (verdict, behind) ∧
      (verdict = .matched ↔ ∃ nodes, Grammar.Line line.body nodes) ∧
      ∀ nodes, Grammar.Line line.body nodes → behind.nodes = context.nodes ++ nodes := by
  have hspells := TokenLine.spells_of_mem hline
  rw [← hposition] at hspells
  have hbudget : line.body.length < context.budget :=
    Nat.lt_of_le_of_lt (TokenLine.length_body_le hline) hreads.enough
  have hmatches : ∀ {position nodes}, Line.line.run (.ofTokens (Lexer.ofSource source).nth)
        context.budget context.position = some (success position nodes) ↔
      Grammar.Line line.body nodes ∧
        position = Line.behind (context.position + line.body.length) line.ending :=
    Line.run_line_eq_success_iff line.inside line.ends hspells hbudget
  rcases TokenLine.run_cases hspells hbudget with
    ⟨nodes, hform, hrun⟩ | ⟨hnone, position, nodes, fault, hrun, -⟩
  · -- a line of the grammar: its nodes are added, and it has no others
    obtain ⟨behind, happly, -, -, -, hnodes, -⟩ := hreads.exists_apply hrun
    refine ⟨_, behind, happly, ⟨fun _ => ⟨nodes, hform⟩, fun _ => rfl⟩, fun nodes' hform' => ?_⟩
    obtain ⟨-, -, hsame, -⟩ := Outcome.mk.inj
      (Option.some.inj (hrun.symm.trans (hmatches.mpr ⟨hform', rfl⟩)))
    rw [hnodes, hsame]
  · obtain ⟨behind, happly, -⟩ := hreads.exists_apply hrun
    exact ⟨_, behind, happly, ⟨Verdict.noConfusion, fun h => absurd h hnone⟩,
      fun nodes' hform => absurd ⟨nodes', hform⟩ hnone⟩

/-- The first line of a source, with a label and a directive, is read with the nodes of both. -/
theorem Context.apply_line_labelled :
    let source := "VALUES: .blkw 2, #-1 ; two words\nADD R0, R0"
    ∃ line after behind, TokenLine.ofSource source = line :: after ∧
      (Context.ofSource source).apply Line.line = .ok (.matched, behind) ∧
      ∃ nodes, Grammar.Line line.body nodes ∧ behind.nodes = nodes := by
  intro source
  obtain ⟨line, after, hlines⟩ : ∃ line after, TokenLine.ofSource source = line :: after := by
    have hclosed := TokenLine.closed_ofSource source
    cases hlines : TokenLine.ofSource source with
    | nil =>
      rw [hlines] at hclosed
      cases hclosed
    | cons line after => exact ⟨line, after, rfl⟩
  obtain ⟨verdict, behind, happly, hmatched, hnodes⟩ :=
    Context.apply_line_matched_iff (show _ = [] ++ line :: after from hlines)
      (Context.reads_ofSource source) rfl
  have hverdict : ((Context.ofSource source).apply Line.line).map Prod.fst = .ok .matched := by
    decide +kernel
  rw [happly] at hverdict
  obtain rfl : verdict = .matched := Except.ok.inj hverdict
  obtain ⟨nodes, hform⟩ := hmatched.mp rfl
  exact ⟨line, after, behind, hlines, happly, nodes, hform, hnodes nodes hform⟩

end LC3
