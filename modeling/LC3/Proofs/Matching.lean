import LC3.Proofs.Contract

namespace LC3

/-!
# How rules match

When the combinations of rules match without errors, and when they are rejected without a trace:
one statement for each combination. Together they give the runs of a grammar in both directions.

* `Rule.runAll_cons_eq_success_iff`, `Rule.runAny_cons_eq_success_iff`,
  `Rule.run_maybe_eq_success_iff`, `Rule.run_commit_eq_success_iff`,
  `Rule.run_subtree_eq_success_iff` — how a combination matches.
* `Rule.Repeats`, `Rule.run_many_eq_success` — how an unbounded repetition matches.
* `Rule.runAll_cons_eq_refusal`, `Rule.runAny_cons_eq_refusal_iff` — how a combination is rejected.
-/

namespace Outcome

variable {outcome first rest : Outcome} {plain : Prop} {start position : Nat} {nodes : List Node}

/-- A plain rule that matches has no errors. -/
theorem Honors.eq_success (h : outcome.Honors plain start) (hplain : plain)
    (hmatched : outcome.verdict = .matched) :
    outcome = success outcome.position outcome.nodes := by
  have herrors := h.silent hplain (by rw [hmatched]; decide)
  obtain ⟨verdict, position, nodes, errors⟩ := outcome
  obtain rfl : verdict = .matched := hmatched
  obtain rfl : errors = [] := herrors
  rfl

/-- A rejection without errors leaves no trace. -/
theorem Honors.eq_refusal (h : outcome.Honors plain start)
    (hrejected : outcome.verdict = .rejected) (herrors : outcome.errors = []) :
    outcome = refusal start := by
  obtain ⟨verdict, position, nodes, errors⟩ := outcome
  obtain rfl : verdict = .rejected := hrejected
  obtain ⟨hposition, hnodes⟩ := h.rejected rfl
  obtain rfl : position = start := hposition
  obtain rfl : nodes = [] := hnodes
  obtain rfl : errors = [] := herrors
  rfl

/-- Two outcomes are a match without errors together if both are. -/
theorem append_eq_success_iff (hmatched : first.verdict = .matched) :
    first.append rest = success position nodes ↔
      ∃ before behind, first = success first.position before ∧
        rest = success position behind ∧ nodes = before ++ behind := by
  obtain ⟨verdict, middle, before, errors⟩ := first
  obtain rfl : verdict = .matched := hmatched
  obtain ⟨verdict', last, behind, errors'⟩ := rest
  constructor
  · -- a match has the verdict, the place and no errors of both
    intro h
    obtain ⟨hverdict, hposition, hnodes, herrors⟩ := Outcome.mk.inj h
    obtain ⟨hnil, hnil'⟩ := List.append_eq_nil_iff.mp herrors
    obtain rfl : verdict' = .matched := hverdict
    obtain rfl : last = position := hposition
    obtain rfl : errors = [] := hnil
    obtain rfl : errors' = [] := hnil'
    exact ⟨before, behind, rfl, rfl, hnodes.symm⟩
  · rintro ⟨before', behind', hfirst, hrest, rfl⟩
    rw [hfirst, hrest]
    rfl

/-- An outcome is not undone exactly if it is a match. -/
theorem rewind_eq_success_iff :
    outcome.rewind start = success position nodes ↔ outcome = success position nodes := by
  obtain ⟨verdict, last, found, errors⟩ := outcome
  cases verdict <;> simp [rewind]

/-- What is not rejected stays as it is, so a match without errors does. -/
theorem rewindRejected_eq_success_iff :
    outcome.rewindRejected start = success position nodes ↔ outcome = success position nodes := by
  obtain ⟨verdict, last, found, errors⟩ := outcome
  cases verdict <;> simp [rewindRejected]

end Outcome

namespace Rule

open Outcome (success refusal)

variable {tokens : Nat → Token} {budget start position : Nat} {nodes : List Node}
  {rule : Rule} {rules : List Rule}

/-! ### Matches -/

/-- A primitive matches if it accepts the tokens. -/
theorem run_primitive_eq_success_iff {expectation : String} {decide : Token → Token → Decision} :
    (primitive expectation decide).run (.ofTokens tokens) budget start =
        some (success position nodes) ↔
      ∃ taken, decide (tokens start) (tokens (start + 1)) = .accept taken nodes ∧
        position = start + taken := by
  rw [run_primitive, Option.some_inj]
  cases decide (tokens start) (tokens (start + 1)) with
  | accept taken found => simp [Decision.outcome, eq_comm, and_comm]
  | _ => simp [Decision.outcome]

/-- An empty sequence matches where it starts. -/
theorem runAll_nil_eq_success_iff :
    runAll (.ofTokens tokens) budget [] start = some (success position nodes) ↔
      position = start ∧ nodes = [] := by
  rw [runAll]
  show some (success start []) = _ ↔ _
  simp [eq_comm]

/-- A sequence matches if its first rule does, and the others do behind it. -/
theorem runAll_cons_eq_success_iff :
    runAll (.ofTokens tokens) budget (rule :: rules) start = some (success position nodes) ↔
      ∃ middle before behind,
        rule.run (.ofTokens tokens) budget start = some (success middle before) ∧
        runAll (.ofTokens tokens) budget rules middle = some (success position behind) ∧
        nodes = before ++ behind := by
  rw [runAll_cons_eq_some_iff]
  constructor
  · rintro ⟨first, hfirst, ⟨hverdict, rest, hrest, h⟩ | ⟨hverdict, h⟩⟩
    · obtain ⟨before, behind, hbefore, rfl, hnodes⟩ :=
        (Outcome.append_eq_success_iff hverdict).mp (Outcome.rewind_eq_success_iff.mp h.symm)
      exact ⟨first.position, before, behind, hbefore ▸ hfirst, hrest, hnodes⟩
    · -- a sequence whose first rule does not match is no match
      rw [Outcome.rewind_eq_success_iff.mp h.symm] at hverdict
      exact absurd rfl hverdict
  · rintro ⟨middle, before, behind, hfirst, hrest, rfl⟩
    exact ⟨_, hfirst, .inl ⟨rfl, _, hrest, rfl⟩⟩

/-- A sequence of a single rule. -/
theorem runAll_singleton_eq_success_iff :
    runAll (.ofTokens tokens) budget [rule] start = some (success position nodes) ↔
      rule.run (.ofTokens tokens) budget start = some (success position nodes) := by
  rw [runAll_cons_eq_success_iff]
  constructor
  · rintro ⟨middle, before, behind, hrule, hnil, rfl⟩
    obtain ⟨rfl, rfl⟩ := runAll_nil_eq_success_iff.mp hnil
    rw [List.append_nil]
    exact hrule
  · intro h
    exact ⟨position, nodes, [], h, runAll_nil_eq_success_iff.mpr ⟨rfl, rfl⟩,
      (List.append_nil _).symm⟩

/-- A sequence of two rules. -/
theorem run_pair_eq_success_iff {next : Rule} :
    (all [rule, next]).run (.ofTokens tokens) budget start = some (success position nodes) ↔
      ∃ middle before behind,
        rule.run (.ofTokens tokens) budget start = some (success middle before) ∧
        next.run (.ofTokens tokens) budget middle = some (success position behind) ∧
        nodes = before ++ behind := by
  rw [run, runAll_cons_eq_success_iff]
  simp only [runAll_singleton_eq_success_iff]

/-- A sequence of three rules. -/
theorem run_triple_eq_success_iff {next last : Rule} :
    (all [rule, next, last]).run (.ofTokens tokens) budget start = some (success position nodes) ↔
      ∃ middle before rest,
        rule.run (.ofTokens tokens) budget start = some (success middle before) ∧
        (∃ middle' between behind,
          next.run (.ofTokens tokens) budget middle = some (success middle' between) ∧
          last.run (.ofTokens tokens) budget middle' = some (success position behind) ∧
          rest = between ++ behind) ∧
        nodes = before ++ rest := by
  rw [run, runAll_cons_eq_success_iff]
  refine exists_congr fun middle => exists_congr fun before => exists_congr fun rest =>
    and_congr_right fun _ => and_congr_left fun _ => ?_
  -- the two rules behind the first are a pair
  rw [← run_pair_eq_success_iff, run]

/-- Alternatives match if the first does, or if it is rejected without errors and the others
    match. -/
theorem runAny_cons_eq_success_iff :
    runAny (.ofTokens tokens) budget (rule :: rules) start = some (success position nodes) ↔
      rule.run (.ofTokens tokens) budget start = some (success position nodes) ∨
        rule.run (.ofTokens tokens) budget start = some (refusal start) ∧
          runAny (.ofTokens tokens) budget rules start = some (success position nodes) := by
  rw [runAny_cons_eq_some_iff]
  constructor
  · rintro ⟨first, hfirst, ⟨hverdict, rest, hrest, h⟩ | ⟨-, rfl⟩⟩
    · -- errors of a rejected alternative would stay, so it has none
      obtain ⟨verdict, last, found, errors⟩ := rest
      obtain ⟨rfl, rfl, rfl, herrors⟩ := Outcome.mk.inj h
      obtain ⟨hnil, rfl⟩ := List.append_eq_nil_iff.mp herrors.symm
      rw [(honors_run hfirst).eq_refusal hverdict hnil] at hfirst
      exact .inr ⟨hfirst, hrest⟩
    · exact .inl hfirst
  · rintro (hfirst | ⟨hfirst, hrest⟩)
    · exact ⟨_, hfirst, .inr ⟨Verdict.noConfusion, rfl⟩⟩
    · exact ⟨_, hfirst, .inl ⟨rfl, _, hrest, rfl⟩⟩

/-- A rule that must not be rejected matches if the rule itself does. -/
theorem run_commit_eq_success_iff :
    (commit rule).run (.ofTokens tokens) budget start = some (success position nodes) ↔
      rule.run (.ofTokens tokens) budget start = some (success position nodes) := by
  rw [run_commit, Option.map_eq_some_iff]
  constructor
  · rintro ⟨⟨verdict, last, found, errors⟩, hrun, h⟩
    cases verdict with
    | rejected => cases h
    | _ => rw [← h, hrun]; rfl
  · exact fun h => ⟨_, h, rfl⟩

/-- The nodes of a rule become one, unless there are none. -/
theorem run_subtree_eq_success_iff :
    (subtree rule).run (.ofTokens tokens) budget start = some (success position nodes) ↔
      ∃ found, rule.run (.ofTokens tokens) budget start = some (success position found) ∧
        nodes = (match found with | [] => [] | top :: others => [top.adopt others]) := by
  rw [run_subtree, Option.map_eq_some_iff]
  constructor
  · rintro ⟨⟨verdict, last, found, errors⟩, hrun, h⟩
    cases verdict with
    | matched => cases found <;> cases h <;> exact ⟨_, hrun, rfl⟩
    | _ => cases h
  · rintro ⟨found, hrun, rfl⟩
    exact ⟨_, hrun, by cases found <;> rfl⟩

/-- What a rule is said to expect does not change how it runs. -/
theorem run_expecting {expectation : String} :
    (expecting rule expectation).run (.ofTokens tokens) budget start =
      rule.run (.ofTokens tokens) budget start := by
  rw [run]

/-- A rule that may be there matches if it does, or is rejected without errors and takes nothing. -/
theorem run_maybe_eq_success_iff :
    (maybe rule).run (.ofTokens tokens) budget start = some (success position nodes) ↔
      rule.run (.ofTokens tokens) budget start = some (success position nodes) ∨
        rule.run (.ofTokens tokens) budget start = some (refusal start) ∧
          position = start ∧ nodes = [] := by
  rw [maybe, run, runTimes_succ_eq_some_iff]
  constructor
  · rintro ⟨first, hfirst, ⟨hverdict, h⟩ | ⟨hverdict, h⟩ | ⟨hverdict, rest, h, hrest⟩⟩
    · -- rejected without errors, for errors would stay
      obtain ⟨-, rfl, rfl, hnil⟩ := Outcome.mk.inj h
      rw [(honors_run hfirst).eq_refusal hverdict hnil.symm] at hfirst
      exact .inr ⟨hfirst, rfl, rfl⟩
    · rw [← h] at hverdict
      cases hverdict
    · have hsuccess := Outcome.rewindRejected_eq_success_iff.mp h.symm
      obtain ⟨before, behind, hbefore, hbehind, rfl⟩ :=
        (Outcome.append_eq_success_iff hverdict).mp hsuccess
      -- the limit of one round is reached at the place behind the rule in any case
      have hlast : rest = success first.position [] := by
        split at hrest
        case isTrue hposition => rw [hrest, hposition]; rfl
        case isFalse => exact (Option.some.inj hrest).symm
      obtain ⟨-, rfl, rfl, -⟩ := Outcome.mk.inj (hbehind.symm.trans hlast)
      rw [List.append_nil, ← hbefore]
      exact .inl hfirst
  · rintro (hfirst | ⟨hfirst, rfl, rfl⟩)
    · -- one round, and the limit is reached
      refine ⟨_, hfirst, .inr (.inr ⟨rfl, success position [], ?_, ?_⟩)⟩
      · rw [Outcome.append, List.append_nil]
        rfl
      · split
        case isTrue hposition => rw [← hposition]; rfl
        case isFalse => rfl
    · exact ⟨_, hfirst, .inl ⟨rfl, rfl⟩⟩

/-! ### Repetitions -/

section Rounds

variable {step : Nat → Option Outcome} {exhausted : Nat → Nat → Option Outcome}
  {limit middle : Nat} {before behind : List Node} {errors errors' : List SyntaxFault}

/-- A round that matches and consumes nothing is the last one. -/
theorem runTimes_of_idle (h : step start = some ⟨.matched, start, nodes, errors⟩) :
    runTimes step exhausted (limit + 1) 0 start = some ⟨.matched, start, nodes, errors⟩ := by
  refine runTimes_succ_eq_some_iff.mpr
    ⟨_, h, .inr (.inr ⟨rfl, success start [], ?_, (if_pos rfl).mpr rfl⟩)⟩
  show _ = Outcome.mk .matched start (nodes ++ []) (errors ++ [])
  rw [List.append_nil, List.append_nil]

/-- A round that consumes tokens is followed by others. -/
theorem runTimes_of_forward (hfirst : step start = some ⟨.matched, middle, before, errors⟩)
    (hforward : start < middle)
    (hrest : runTimes step exhausted limit 0 middle =
      some ⟨.matched, position, behind, errors'⟩) :
    runTimes step exhausted (limit + 1) 0 start =
      some ⟨.matched, position, before ++ behind, errors ++ errors'⟩ := by
  refine runTimes_succ_eq_some_iff.mpr
    ⟨_, hfirst, .inr (.inr ⟨rfl, ⟨.matched, position, behind, errors'⟩, rfl, ?_⟩)⟩
  rw [if_neg (Nat.ne_of_gt hforward)]
  exact hrest

end Rounds

/-- The rounds of an unbounded repetition that matches: rounds that consume tokens, and then one
    that is rejected or consumes nothing. -/
inductive Repeats (step : Nat → Option Outcome) : Nat → Nat → List Node → Prop where
  | stop {start : Nat} (h : step start = some (refusal start)) : Repeats step start start []
  | idle {start : Nat} {nodes : List Node} (h : step start = some (success start nodes)) :
    Repeats step start start nodes
  | again {start middle position : Nat} {before behind : List Node}
    (h : step start = some (success middle before)) (hforward : start < middle)
    (hrest : Repeats step middle position behind) :
    Repeats step start position (before ++ behind)

/-- Rounds go forward. -/
theorem Repeats.le {step : Nat → Option Outcome} (h : Repeats step start position nodes) :
    start ≤ position := by
  induction h with
  | stop | idle => exact Nat.le_refl _
  | again _ hforward _ ih => exact Nat.le_trans (Nat.le_of_lt hforward) ih

/-- Rounds that match are a repetition. -/
private theorem repeats_of_runTimes {step : Nat → Option Outcome}
    {exhausted : Nat → Nat → Option Outcome} {limit : Nat}
    (hstep : ∀ start outcome, step start = some outcome → outcome.Honors False start)
    (hexhausted : ∀ needed start, exhausted needed start = none)
    (h : runTimes step exhausted limit 0 start = some (success position nodes)) :
    Repeats step start position nodes := by
  induction limit generalizing start position nodes with
  | zero =>
    rw [runTimes, hexhausted] at h
    cases h
  | succ limit ih =>
    obtain ⟨first, hfirst, ⟨hverdict, h⟩ | ⟨hverdict, h⟩ | ⟨hverdict, rest, h, hrest⟩⟩ :=
      runTimes_succ_eq_some_iff.mp h
    · -- the last round is rejected
      obtain ⟨-, rfl, rfl, hnil⟩ := Outcome.mk.inj h
      rw [(hstep _ _ hfirst).eq_refusal hverdict hnil.symm] at hfirst
      exact .stop hfirst
    · rw [← h] at hverdict
      cases hverdict
    · -- a round that matches
      have hsuccess := Outcome.rewindRejected_eq_success_iff.mp h.symm
      obtain ⟨before, behind, hbefore, hbehind, rfl⟩ :=
        (Outcome.append_eq_success_iff hverdict).mp hsuccess
      split at hrest
      case isTrue hposition =>
        -- a round that consumes nothing is the last one
        obtain ⟨-, rfl, rfl, -⟩ := Outcome.mk.inj (hbehind.symm.trans hrest)
        rw [List.append_nil]
        rw [hbefore, hposition] at hfirst
        exact .idle hfirst
      case isFalse hposition =>
        have hforward := (hstep _ _ hfirst).forward
        rw [hbefore] at hfirst
        rw [hbehind] at hrest
        exact .again hfirst (by omega) (ih hrest)

/-- A repetition matches in rounds if there are enough of them for the tokens. -/
private theorem Repeats.runTimes_eq_success {step : Nat → Option Outcome}
    {exhausted : Nat → Nat → Option Outcome} {limit : Nat} (h : Repeats step start position nodes)
    (hlimit : position - start < limit) :
    runTimes step exhausted limit 0 start = some (success position nodes) := by
  induction h generalizing limit with
  | @stop start hstop =>
    obtain ⟨limit, rfl⟩ := Nat.exists_eq_add_one_of_ne_zero (Nat.ne_zero_of_lt hlimit)
    exact runTimes_succ_eq_some_iff.mpr ⟨_, hstop, .inl ⟨rfl, rfl⟩⟩
  | @idle start nodes hidle =>
    obtain ⟨limit, rfl⟩ := Nat.exists_eq_add_one_of_ne_zero (Nat.ne_zero_of_lt hlimit)
    exact runTimes_of_idle hidle
  | @again start middle position before behind hfirst hforward hrest ih =>
    obtain ⟨limit, rfl⟩ := Nat.exists_eq_add_one_of_ne_zero (Nat.ne_zero_of_lt hlimit)
    -- the round takes a token away, so the rounds that are left are still enough
    have hle : middle ≤ position := hrest.le
    have hlimit' : position - middle < limit := by omega
    exact runTimes_of_forward hfirst hforward (ih hlimit')

/-- A repetition that matches consists of rounds. -/
theorem repeats_of_run_many
    (h : (many rule).run (.ofTokens tokens) budget start = some (success position nodes)) :
    Repeats (rule.run (.ofTokens tokens) budget) start position nodes := by
  rw [many, run] at h
  exact repeats_of_runTimes (fun _ _ hrun => (honors_run hrun).weaken False.elim)
    (fun _ _ => rfl) h

/-- Rounds are a repetition that matches, if there are enough of them for the tokens. -/
theorem run_many_eq_success (h : Repeats (rule.run (.ofTokens tokens) budget) start position nodes)
    (hbudget : position - start < budget) :
    (many rule).run (.ofTokens tokens) budget start = some (success position nodes) := by
  rw [many, run]
  exact h.runTimes_eq_success hbudget

/-! ### Rejections -/

/-- A primitive is rejected if it rejects the tokens. -/
theorem run_primitive_eq_refusal_iff {expectation : String} {decide : Token → Token → Decision} :
    (primitive expectation decide).run (.ofTokens tokens) budget start = some (refusal start) ↔
      decide (tokens start) (tokens (start + 1)) = .reject := by
  rw [run_primitive, Option.some_inj]
  cases decide (tokens start) (tokens (start + 1)) <;> simp [Decision.outcome]

/-- A sequence is rejected with its beginning. -/
theorem runAll_cons_eq_refusal
    (h : rule.run (.ofTokens tokens) budget start = some (refusal start)) :
    runAll (.ofTokens tokens) budget (rule :: rules) start = some (refusal start) :=
  runAll_cons_eq_some_iff.mpr ⟨_, h, .inr ⟨Verdict.noConfusion, rfl⟩⟩

/-- A sequence is rejected with what follows its beginning, and goes back. -/
theorem runAll_cons_eq_refusal_of_rest {middle : Nat}
    (h : rule.run (.ofTokens tokens) budget start = some (success middle nodes))
    (hrest : runAll (.ofTokens tokens) budget rules middle = some (refusal middle)) :
    runAll (.ofTokens tokens) budget (rule :: rules) start = some (refusal start) :=
  runAll_cons_eq_some_iff.mpr ⟨_, h, .inl ⟨rfl, _, hrest, rfl⟩⟩

theorem runAny_nil : runAny (.ofTokens tokens) budget [] start = some (refusal start) := by
  rw [runAny]
  rfl

/-- Alternatives are rejected together. -/
theorem runAny_cons_eq_refusal_iff :
    runAny (.ofTokens tokens) budget (rule :: rules) start = some (refusal start) ↔
      rule.run (.ofTokens tokens) budget start = some (refusal start) ∧
        runAny (.ofTokens tokens) budget rules start = some (refusal start) := by
  rw [runAny_cons_eq_some_iff]
  constructor
  · rintro ⟨first, hfirst, ⟨hverdict, ⟨verdict, last, found, errors⟩, hrest, h⟩ | ⟨hverdict, rfl⟩⟩
    · -- both are rejected, and no errors have been left behind
      obtain ⟨rfl, rfl, rfl, herrors⟩ := Outcome.mk.inj h
      obtain ⟨hnil, rfl⟩ := List.append_eq_nil_iff.mp herrors.symm
      rw [(honors_run hfirst).eq_refusal hverdict hnil] at hfirst
      exact ⟨hfirst, hrest⟩
    · exact absurd rfl hverdict
  · rintro ⟨hfirst, hrest⟩
    exact ⟨_, hfirst, .inl ⟨rfl, _, hrest, rfl⟩⟩

/-- A rule whose nodes are gathered is rejected with it. -/
theorem run_subtree_eq_refusal
    (h : rule.run (.ofTokens tokens) budget start = some (refusal start)) :
    (subtree rule).run (.ofTokens tokens) budget start = some (refusal start) := by
  rw [run_subtree, h]
  rfl

end Rule

end LC3
