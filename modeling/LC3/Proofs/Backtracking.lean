import LC3.Line
import LC3.Proofs.Checkpoints
import LC3.Proofs.Recording

namespace LC3

/-!
# Backtracking

What a rule does to a context can be told from its verdict. A rejected rule leaves the cursor and
the nodes as they were, and other rules only add: nodes behind the old nodes, errors behind the old
errors. So an alternative that is tried next starts from the same place, whatever the one before it
was made of and whatever its parts had found.

* `Context.Backtracks` — this contract.
* `Context.backtracks_apply` — every rule keeps to it, in every context from which it returns.
-/

namespace Context

variable {tokens : Nat → Token} {context behind : Context} {outcome : Outcome}

/-- A buffer always holds some sequence of tokens. -/
theorem exists_holds (buffer : Buffer) : ∃ tokens, buffer.Holds tokens := by
  refine ⟨fun index => if h : index < buffer.tokens.size then buffer.tokens[index]
    else buffer.lexer.nth (index - buffer.tokens.size), ?_, ?_⟩
  · intro index h
    rw [dif_pos h]
  · intro n
    rw [dif_neg (by omega), Nat.add_sub_cancel_left]

/-- Applying a rule returns what running it on the tokens comes to. -/
theorem exists_apply_of_run {rule : Rule} (h : context.buffer.Holds tokens)
    (hrun : rule.run (.ofTokens tokens) context.budget context.position = some outcome) :
    ∃ behind, context.apply rule = .ok (outcome.verdict, behind) ∧
      After tokens context outcome behind := by
  rcases Rule.follows_run context.buffer h with
    ⟨hnone, -⟩ | ⟨result, buffer, hsome, hlazy, hholds⟩
  · rw [hrun] at hnone
    cases hnone
  · obtain rfl := Option.some.inj (hrun.symm.trans hsome)
    unfold apply
    rw [hlazy]
    exact ⟨_, rfl, hholds, rfl, rfl, rfl, rfl⟩

/-- Applying a rule is given up if running it on the tokens is. -/
theorem apply_of_run_eq_none {rule : Rule} (h : context.buffer.Holds tokens)
    (hrun : rule.run (.ofTokens tokens) context.budget context.position = none) :
    context.apply rule = .error .endlessRule := by
  have habandoned :
      rule.run Buffer.source context.budget context.position context.buffer = none := by
    rcases Rule.follows_run context.buffer h with ⟨-, hlazy⟩ | ⟨_, _, hsome, -⟩
    · exact hlazy
    · rw [hrun] at hsome
      cases hsome
  unfold apply
  rw [habandoned]

/-- If applying a rule returns, running it on the tokens does. -/
theorem exists_run_of_apply {rule : Rule} {verdict : Verdict}
    (hholds : context.buffer.Holds tokens) (h : context.apply rule = .ok (verdict, behind)) :
    ∃ outcome, rule.run (.ofTokens tokens) context.budget context.position = some outcome ∧
      outcome.verdict = verdict ∧ After tokens context outcome behind := by
  cases hrun : rule.run (.ofTokens tokens) context.budget context.position with
  | none =>
    rw [apply_of_run_eq_none hholds hrun] at h
    cases h
  | some outcome =>
    obtain ⟨last, hlast, hafter⟩ := exists_apply_of_run hholds hrun
    obtain ⟨hverdict, rfl⟩ := Prod.mk.inj (Except.ok.inj (hlast.symm.trans h))
    exact ⟨outcome, rfl, hverdict, hafter⟩

/-- Two contexts that differ at most in how much of the source has been read. -/
structure Alike (context other : Context) : Prop where
  position : context.position = other.position
  nodes : context.nodes = other.nodes
  errors : context.errors = other.errors

/-- What an outcome leaves behind is the same up to how far the source has been read. -/
theorem After.alike {other : Context} (h : After tokens context outcome behind)
    (hother : After tokens context outcome other) : behind.Alike other where
  position := h.position.trans hother.position.symm
  nodes := h.nodes.trans hother.nodes.symm
  errors := h.errors.trans hother.errors.symm

/-- What a rule may do to a context, by its verdict. -/
structure Backtracks (rule : Rule) (context : Context) (verdict : Verdict) (behind : Context) :
    Prop where
  rejected : verdict = .rejected →
    behind.position = context.position ∧ behind.nodes = context.nodes
  matched : verdict = .matched →
    context.position ≤ behind.position ∧ context.nodes <+: behind.nodes
  failed : verdict = .failed →
    context.nodes <+: behind.nodes ∧ context.errors.length < behind.errors.length
  errors : context.errors <+: behind.errors
  /-- A rule that mends no failure has one error to show for it, and none otherwise. -/
  plain : rule.isPlain →
    behind.errors.length = context.errors.length + if verdict = .failed then 1 else 0

/-- An outcome that honors the contract is added to a context as the contract says. -/
theorem After.backtracks {rule : Rule} (h : After tokens context outcome behind)
    (hhonors : outcome.Honors rule.isPlain context.position) :
    Backtracks rule context outcome.verdict behind where
  rejected := by
    intro hrejected
    obtain ⟨hposition, hnodes⟩ := hhonors.rejected hrejected
    rw [h.position, h.nodes, hposition, hnodes, List.append_nil]
    exact ⟨rfl, rfl⟩
  matched := by
    intro _
    rw [h.position, h.nodes]
    exact ⟨hhonors.forward, List.prefix_append _ _⟩
  failed := by
    intro hfailed
    have hsome : 0 < outcome.errors.length := List.length_pos_iff.mpr (hhonors.failed hfailed)
    rw [h.nodes, h.errors, List.length_append]
    exact ⟨List.prefix_append _ _, by omega⟩
  errors := by
    rw [h.errors]
    exact List.prefix_append _ _
  plain := by
    intro hplain
    rw [h.errors, List.length_append]
    by_cases hfailed : outcome.verdict = .failed
    · obtain ⟨fault, hfault⟩ := hhonors.single hplain hfailed
      rw [if_pos hfailed, hfault]
      rfl
    · rw [if_neg hfailed, hhonors.silent hplain hfailed]
      rfl

/-- **Rules backtrack.** In every context from which a rule returns it keeps to the contract, and
    carrying it out with checkpoints ends in the same way. If the rule must not be rejected, a
    rejection becomes a failure, with one more error at the token where the rule began. -/
theorem backtracks_apply {rule : Rule} {verdict : Verdict}
    (h : context.apply rule = .ok (verdict, behind)) :
    Backtracks rule context verdict behind ∧
      (∃ performed, context.perform rule = some (verdict, performed) ∧ performed.Alike behind) ∧
      ∃ committed,
        context.apply (.commit rule) =
          .ok (if verdict = .rejected then .failed else verdict, committed) ∧
        committed.position = behind.position ∧ committed.nodes = behind.nodes ∧
        committed.errors = behind.errors ++
          if verdict = .rejected then
            [⟨.unexpectedToken rule.expects context.peek.1.kind, context.peek.1.location⟩]
          else [] := by
  obtain ⟨tokens, hholds⟩ := exists_holds context.buffer
  obtain ⟨outcome, hrun, rfl, hafter⟩ := exists_run_of_apply hholds h
  have hhonors := Rule.honors_run hrun
  refine ⟨hafter.backtracks hhonors, ?_, ?_⟩
  · -- the checkpoint semantics has the same outcome, so both leave contexts that are alike
    have hperform := agrees_perform rule hholds
    rw [hrun] at hperform
    obtain ⟨performed, hperformed, hafter'⟩ := hperform
    exact ⟨performed, hperformed, hafter'.alike hafter⟩
  · -- behind the rule, a commit only turns a rejection into an error
    have hcommit : (Rule.commit rule).run (.ofTokens tokens) context.budget context.position =
        some (outcome.insist rule.expects (tokens outcome.position)) := by
      rw [Rule.run_commit, hrun]
      rfl
    obtain ⟨committed, hcommitted, hafter'⟩ := exists_apply_of_run hholds hcommit
    have hpeek : context.peek.1 = tokens context.position := (after_peek hholds).1
    refine ⟨committed, ?_⟩
    rw [hcommitted, hafter'.position, hafter'.nodes, hafter'.errors, hafter.position, hafter.nodes,
      hafter.errors, hpeek]
    obtain ⟨verdict, position, nodes, errors⟩ := outcome
    cases verdict with
    | rejected =>
      obtain rfl : position = context.position := (hhonors.rejected rfl).1
      exact ⟨rfl, rfl, rfl, (List.append_assoc _ _ _).symm⟩
    | matched => exact ⟨rfl, rfl, rfl, (List.append_nil _).symm⟩
    | failed => exact ⟨rfl, rfl, rfl, (List.append_nil _).symm⟩

/-- A sequence that breaks off behind a label is rejected, and none of it is left in a context that
    holds a node and an error. -/
theorem backtracks_apply_label :
    let rule : Rule := .all [Line.label, .atom .comma]
    let context : Context :=
      { Context.ofSource "LOOP HALT" with
        nodes := [.root []], errors := [⟨.invalidNumber, (Lexer.ofSource "").location⟩] }
    ∃ behind, context.apply rule = .ok (.rejected, behind) ∧
      behind.position = 0 ∧ behind.nodes = [.root []] ∧
      ∃ committed, context.apply (.commit rule) = .ok (.failed, committed) ∧
        committed.errors.length = 2 := by
  intro rule context
  obtain ⟨⟨verdict, behind⟩, happly, hverdict⟩ :
      ∃ result, context.apply rule = .ok result ∧ result.1 = .rejected :=
    map_eq_ok_iff.mp (by decide +kernel)
  obtain rfl : verdict = .rejected := hverdict
  obtain ⟨hcontract, -, committed, hcommitted, -, -, herrors⟩ := backtracks_apply happly
  obtain ⟨hposition, hnodes⟩ := hcontract.rejected rfl
  have hcount : behind.errors.length = 1 := hcontract.plain (by decide)
  refine ⟨behind, happly, hposition, hnodes, committed, hcommitted, ?_⟩
  rw [herrors, List.length_append, hcount]
  rfl

end Context

end LC3
