import LC3.Rule.Run
import Mathlib.Tactic.Common

namespace LC3

/-!
# What every rule keeps to

Rules are combined in eight ways, and all of them keep to the same contract: a rule never goes back
behind the place where it starts, a rule that is rejected leaves no trace but errors, and a rule
that fails has an error to show. A rule that mends no failure has exactly one error if it fails and
none otherwise.

* `Rule.induct` — induction over the rules that a rule is made of.
* `Rule.isPlain` — the rules that mend no failure.
* `Outcome.Honors` — the contract.
* `Rule.honors_run` — every rule honors it.
-/

/-- Tokens that are all there. -/
def TokenSource.ofTokens (tokens : Nat → Token) : TokenSource Option where
  token index := some (tokens index)
  abandon := none

namespace Rule

/-- All rules have a property if every rule inherits it from those that it is made of. -/
@[elab_as_elim]
theorem induct {motive : Rule → Prop}
    (primitive : ∀ expectation decide, motive (primitive expectation decide))
    (all : ∀ rules, (∀ rule ∈ rules, motive rule) → motive (all rules))
    (any : ∀ rules, (∀ rule ∈ rules, motive rule) → motive (any rules))
    (times : ∀ rule least most?, motive rule → motive (times rule least most?))
    (commit : ∀ rule, motive rule → motive (commit rule))
    (subtree : ∀ rule, motive rule → motive (subtree rule))
    (recover : ∀ rule sync, motive rule → motive (recover rule sync))
    (expecting : ∀ rule expectation, motive rule → motive (expecting rule expectation))
    (rule : Rule) : motive rule :=
  -- rules are nested in lists, so their recursor asks for a motive of lists too
  @Rule.rec motive (fun rules => ∀ rule ∈ rules, motive rule) primitive all any times commit subtree
    recover expecting (fun _ h => absurd h List.not_mem_nil)
    (fun _ _ hhead htail _ h => (List.mem_cons.mp h).elim (· ▸ hhead) (htail _)) rule

mutual

/-- Whether a rule mends no failure. -/
def isPlain : Rule → Bool
  | primitive _ _ => true
  | all rules => arePlain rules
  | any rules => arePlain rules
  | times rule _ _ => rule.isPlain
  | commit rule => rule.isPlain
  | subtree rule => rule.isPlain
  | recover _ _ => false
  | expecting rule _ => rule.isPlain

/-- Whether some rules mend no failure. -/
def arePlain : List Rule → Bool
  | [] => true
  | rule :: rules => rule.isPlain && arePlain rules

end

end Rule

/-! ### Outcomes -/

/-- A match without errors. -/
abbrev Outcome.success (position : Nat) (nodes : List Node) : Outcome :=
  ⟨.matched, position, nodes, []⟩

/-- A rejection without errors. -/
abbrev Outcome.refusal (start : Nat) : Outcome :=
  ⟨.rejected, start, [], []⟩

/-- What an outcome tells, for a rule that starts at a place and that may mend no failure. -/
structure Outcome.Reports (outcome : Outcome) (plain : Prop) (start : Nat) : Prop where
  forward : start ≤ outcome.position
  failed : outcome.verdict = .failed → outcome.errors ≠ []
  silent : plain → outcome.verdict ≠ .failed → outcome.errors = []
  single : plain → outcome.verdict = .failed → ∃ fault, outcome.errors = [fault]

/-- An outcome that tells what it has to and leaves no trace but errors when it is a rejection. -/
structure Outcome.Honors (outcome : Outcome) (plain : Prop) (start : Nat) : Prop
    extends outcome.Reports plain start where
  rejected : outcome.verdict = .rejected → outcome.position = start ∧ outcome.nodes = []

namespace Outcome

variable {first rest outcome : Outcome} {plain : Prop} {start : Nat}

/-- A rule that mends failures keeps to less. -/
theorem Honors.weaken {plain' : Prop} (h : outcome.Honors plain start) (hplain : plain' → plain) :
    outcome.Honors plain' start where
  forward := h.forward
  failed := h.failed
  silent := fun h' => h.silent (hplain h')
  single := fun h' => h.single (hplain h')
  rejected := h.rejected

theorem honors_success {position : Nat} {nodes : List Node} (h : start ≤ position) :
    (success position nodes).Honors plain start :=
  ⟨⟨h, Verdict.noConfusion, fun _ _ => rfl, fun _ => Verdict.noConfusion⟩, Verdict.noConfusion⟩

theorem honors_refusal : (refusal start).Honors plain start :=
  ⟨⟨Nat.le_refl _, Verdict.noConfusion, fun _ _ => rfl, fun _ => Verdict.noConfusion⟩,
    fun _ => ⟨rfl, rfl⟩⟩

/-- A failure with its error. -/
theorem honors_failed {position : Nat} {fault : SyntaxFault} (h : start ≤ position) :
    (⟨.failed, position, [], [fault]⟩ : Outcome).Honors plain start :=
  ⟨⟨h, fun _ => List.cons_ne_nil _ _, fun _ h => absurd rfl h, fun _ _ => ⟨fault, rfl⟩⟩,
    Verdict.noConfusion⟩

/-- The end of a repetition. -/
theorem honors_settle {needed : Nat} {errors : List SyntaxFault} (h : plain → errors = []) :
    (settle needed start errors).Honors plain start := by
  unfold settle
  split <;> exact ⟨⟨Nat.le_refl _, Verdict.noConfusion, fun hplain _ => h hplain,
    fun _ => Verdict.noConfusion⟩, fun _ => ⟨rfl, rfl⟩⟩

/-- A match tells what follows it. -/
theorem Reports.append (hfirst : first.Reports plain start) (hmatched : first.verdict = .matched)
    (hrest : rest.Reports plain first.position) : (first.append rest).Reports plain start := by
  -- a plain rule that matches has no errors of its own
  have herrors : plain → (first.append rest).errors = rest.errors := by
    intro hplain
    have hsilent : first.errors = [] := hfirst.silent hplain (by rw [hmatched]; decide)
    show first.errors ++ rest.errors = rest.errors
    rw [hsilent, List.nil_append]
  refine ⟨Nat.le_trans hfirst.forward hrest.forward, ?_, ?_, ?_⟩
  · intro hfailed hnil
    exact hrest.failed hfailed (List.append_eq_nil_iff.mp hnil).2
  · intro hplain hfailed
    rw [herrors hplain]
    exact hrest.silent hplain hfailed
  · intro hplain hfailed
    rw [herrors hplain]
    exact hrest.single hplain hfailed

/-- Undoing all but the errors of what did not match makes up for its traces. -/
theorem Reports.rewind (h : outcome.Reports plain start) :
    (outcome.rewind start).Honors plain start := by
  obtain ⟨verdict, position, nodes, errors⟩ := outcome
  cases verdict with
  | matched => exact ⟨h, Verdict.noConfusion⟩
  | rejected =>
    exact ⟨⟨Nat.le_refl _, Verdict.noConfusion, h.silent, fun _ => Verdict.noConfusion⟩,
      fun _ => ⟨rfl, rfl⟩⟩
  | failed => exact ⟨⟨Nat.le_refl _, h.failed, h.silent, h.single⟩, Verdict.noConfusion⟩

/-- Undoing all but the errors of what is rejected makes up for its traces. -/
theorem Reports.rewindRejected (h : outcome.Reports plain start) :
    (outcome.rewindRejected start).Honors plain start := by
  obtain ⟨verdict, position, nodes, errors⟩ := outcome
  cases verdict with
  | matched => exact ⟨h, Verdict.noConfusion⟩
  | rejected =>
    exact ⟨⟨Nat.le_refl _, Verdict.noConfusion, h.silent, fun _ => Verdict.noConfusion⟩,
      fun _ => ⟨rfl, rfl⟩⟩
  | failed => exact ⟨h, Verdict.noConfusion⟩

/-- A rejection becomes a failure, with an error of its own. -/
theorem Honors.insist {expected : String} {found : Token} (h : outcome.Honors plain start) :
    (outcome.insist expected found).Honors plain start := by
  obtain ⟨verdict, position, nodes, errors⟩ := outcome
  cases verdict with
  | matched => exact h
  | failed => exact h
  | rejected =>
    -- the error of the commit is the only one, as a rejected plain rule has none
    refine ⟨⟨h.forward, ?_, ?_, ?_⟩, Verdict.noConfusion⟩
    · exact fun _ hnil => List.cons_ne_nil _ _ (List.append_eq_nil_iff.mp hnil).2
    · exact fun _ hfailed => absurd rfl hfailed
    · intro hplain _
      have hsilent : errors = [] := h.silent hplain Verdict.noConfusion
      exact ⟨_, by rw [Outcome.insist, hsilent, List.nil_append]⟩

/-- The errors of a rejected rule stay before those of the next alternative. -/
theorem Honors.afterRejected (h : outcome.Honors plain start) (hfirst : first.Honors plain start)
    (hrejected : first.verdict = .rejected) :
    ({ outcome with errors := first.errors ++ outcome.errors } : Outcome).Honors plain start := by
  have herrors : plain → first.errors ++ outcome.errors = outcome.errors := by
    intro hplain
    rw [hfirst.silent hplain (by rw [hrejected]; decide), List.nil_append]
  refine ⟨⟨h.forward, ?_, ?_, ?_⟩, h.rejected⟩
  · intro hfailed hnil
    exact h.failed hfailed (List.append_eq_nil_iff.mp hnil).2
  · intro hplain hfailed
    exact (herrors hplain).trans (h.silent hplain hfailed)
  · intro hplain hfailed
    obtain ⟨fault, hfault⟩ := h.single hplain hfailed
    exact ⟨fault, (herrors hplain).trans hfault⟩

/-- Nodes are made into one without another change. -/
theorem Honors.gather (h : outcome.Honors plain start) : outcome.gather.Honors plain start := by
  obtain ⟨verdict, position, nodes, errors⟩ := outcome
  cases verdict with
  | matched =>
    cases nodes <;>
      exact ⟨⟨h.forward, h.failed, h.silent, h.single⟩, Verdict.noConfusion⟩
  | rejected =>
    exact ⟨⟨h.forward, h.failed, h.silent, h.single⟩, fun hr => ⟨(h.rejected hr).1, rfl⟩⟩
  | failed => exact ⟨⟨h.forward, h.failed, h.silent, h.single⟩, Verdict.noConfusion⟩

end Outcome

/-! ### Rules -/

/-- What a primitive makes of two tokens, as an outcome. -/
def Decision.outcome (decision : Decision) (tokens : Nat → Token) (start : Nat) : Outcome :=
  match decision with
  | .reject => .refusal start
  | .accept taken nodes => .success (start + taken) nodes
  | .fail skipped error =>
    ⟨.failed, start + skipped, [], [⟨error, (tokens (start + skipped)).location⟩]⟩

namespace Rule

variable {tokens : Nat → Token} {budget : Nat}

/-- A primitive rule does what it decides about the next two tokens. -/
theorem run_primitive {expectation : String} {decide : Token → Token → Decision} {start : Nat} :
    (primitive expectation decide).run (.ofTokens tokens) budget start =
      some ((decide (tokens start) (tokens (start + 1))).outcome tokens start) := by
  rw [run]
  show (match decide (tokens start) (tokens (start + 1)) with
    | .reject => _ | .accept taken nodes => _ | .fail skipped error => _) = _
  cases decide (tokens start) (tokens (start + 1)) <;> rfl

/-- A commit insists on what its rule expects. -/
theorem run_commit {rule : Rule} {start : Nat} :
    (commit rule).run (.ofTokens tokens) budget start =
      (rule.run (.ofTokens tokens) budget start).map fun outcome =>
        outcome.insist rule.expects (tokens outcome.position) := by
  rw [run]
  cases rule.run (.ofTokens tokens) budget start <;> rfl

/-- A subtree gathers the nodes of its rule. -/
theorem run_subtree {rule : Rule} {start : Nat} :
    (subtree rule).run (.ofTokens tokens) budget start =
      (rule.run (.ofTokens tokens) budget start).map Outcome.gather := by
  rw [run]
  cases rule.run (.ofTokens tokens) budget start <;> rfl

/-- A rule with a step behind it that is taken on one verdict only. -/
private theorem bind_eq_some_iff_of_verdict {α β : Type} {verdict : Verdict}
    {step : Outcome → Option α} {next : Outcome → Option β} {join : Outcome → β → α}
    {stop : Outcome → α}
    (htaken : ∀ first, first.verdict = verdict →
      step first = (next first).bind fun rest => some (join first rest))
    (hstopped : ∀ first, first.verdict ≠ verdict → step first = some (stop first))
    {first? : Option Outcome} {result : α} :
    first?.bind step = some result ↔
      ∃ first, first? = some first ∧
        (first.verdict = verdict ∧ (∃ rest, next first = some rest ∧ result = join first rest) ∨
          first.verdict ≠ verdict ∧ result = stop first) := by
  rw [Option.bind_eq_some_iff]
  refine exists_congr fun first => and_congr_right fun _ => ?_
  by_cases hverdict : first.verdict = verdict
  · -- the verdict is the one on which the step is taken
    rw [htaken first hverdict, Option.bind_eq_some_iff]
    constructor
    · rintro ⟨rest, hrest, h⟩
      exact .inl ⟨hverdict, rest, hrest, (Option.some.inj h).symm⟩
    · rintro (⟨-, rest, hrest, rfl⟩ | ⟨hother, -⟩)
      · exact ⟨rest, hrest, rfl⟩
      · exact absurd hverdict hother
  · rw [hstopped first hverdict]
    constructor
    · intro h
      exact .inr ⟨hverdict, (Option.some.inj h).symm⟩
    · rintro (⟨hother, -⟩ | ⟨-, rfl⟩)
      · exact absurd hother hverdict
      · rfl

/-- A sequence stops at the first rule that does not match. -/
theorem runAll_cons_eq_some_iff {rule : Rule} {rules : List Rule} {start : Nat}
    {outcome : Outcome} :
    runAll (.ofTokens tokens) budget (rule :: rules) start = some outcome ↔
      ∃ first, rule.run (.ofTokens tokens) budget start = some first ∧
        (first.verdict = .matched ∧
            (∃ rest, runAll (.ofTokens tokens) budget rules first.position = some rest ∧
              outcome = (first.append rest).rewind start) ∨
          first.verdict ≠ .matched ∧ outcome = first.rewind start) := by
  rw [runAll]
  show (rule.run (.ofTokens tokens) budget start).bind _ = _ ↔ _
  refine bind_eq_some_iff_of_verdict ?_ ?_
  · -- a member that matches is followed by the others
    intro first hmatched
    rw [hmatched]
    rfl
  · intro first hother
    cases hverdict : first.verdict with
    | matched => exact absurd hverdict hother
    | _ => rfl

/-- Alternatives stop at the first rule that is not rejected. -/
theorem runAny_cons_eq_some_iff {rule : Rule} {rules : List Rule} {start : Nat}
    {outcome : Outcome} :
    runAny (.ofTokens tokens) budget (rule :: rules) start = some outcome ↔
      ∃ first, rule.run (.ofTokens tokens) budget start = some first ∧
        (first.verdict = .rejected ∧
            (∃ rest, runAny (.ofTokens tokens) budget rules start = some rest ∧
              outcome = { rest with errors := first.errors ++ rest.errors }) ∨
          first.verdict ≠ .rejected ∧ outcome = first) := by
  rw [runAny]
  show (rule.run (.ofTokens tokens) budget start).bind _ = _ ↔ _
  refine bind_eq_some_iff_of_verdict ?_ ?_
  · -- an alternative that is rejected is followed by the others
    intro first hrejected
    rw [hrejected]
    rfl
  · intro first hother
    cases hverdict : first.verdict with
    | rejected => exact absurd hverdict hother
    | _ => rfl

/-- A round of a repetition is the last one unless it consumes something. -/
theorem runTimes_succ_eq_some_iff {step : Nat → Option Outcome}
    {exhausted : Nat → Nat → Option Outcome} {limit needed start : Nat} {outcome : Outcome} :
    runTimes step exhausted (limit + 1) needed start = some outcome ↔
      ∃ first, step start = some first ∧
        (first.verdict = .rejected ∧ outcome = .settle needed start first.errors ∨
          first.verdict = .failed ∧ outcome = first ∨
          first.verdict = .matched ∧
            ∃ rest, outcome = (first.append rest).rewindRejected start ∧
              if first.position = start then rest = .settle (needed - 1) start []
              else runTimes step exhausted limit (needed - 1) first.position = some rest) := by
  rw [runTimes]
  show (step start).bind _ = _ ↔ _
  rw [Option.bind_eq_some_iff]
  refine exists_congr fun first => and_congr_right fun _ => ?_
  cases hverdict : first.verdict with
  | matched =>
    show (if first.position = start then _
      else (runTimes step exhausted limit (needed - 1) first.position).bind _) = _ ↔ _
    by_cases hposition : first.position = start
    · simp [hposition, eq_comm]
    · rw [if_neg hposition, Option.bind_eq_some_iff]
      constructor
      · rintro ⟨rest, hrest, h⟩
        exact .inr (.inr ⟨rfl, rest, (Option.some.inj h).symm, by rwa [if_neg hposition]⟩)
      · rintro (⟨h, -⟩ | ⟨h, -⟩ | ⟨-, rest, rfl, hrest⟩)
        · cases h
        · cases h
        · exact ⟨rest, by rwa [if_neg hposition] at hrest, rfl⟩
  | _ => simp [eq_comm]

/-- Skipping goes on token by token, up to the end of the source at most. -/
theorem skipPast_succ {sync : TokenKind} {position : Nat} :
    skipPast (.ofTokens tokens) sync (budget + 1) position =
      if (tokens position).kind = .sourceEnd then some position
      else if (tokens position).kind = sync then some (position + 1)
      else skipPast (.ofTokens tokens) sync budget (position + 1) := by
  rw [skipPast]
  rfl

/-- Skipping goes forward. -/
theorem le_of_skipPast {sync : TokenKind} {position behind : Nat}
    (h : skipPast (.ofTokens tokens) sync budget position = some behind) : position ≤ behind := by
  induction budget generalizing position with
  | zero => cases h
  | succ budget ih =>
    rw [skipPast_succ] at h
    split at h
    · exact Nat.le_of_eq (Option.some.inj h)
    split at h
    · exact Nat.le_of_lt (Nat.lt_of_succ_le (Nat.le_of_eq (Option.some.inj h)))
    · exact Nat.le_of_succ_le (ih h)

/-- A failure is mended by skipping what is left. -/
theorem run_recover_eq_some_iff {rule : Rule} {sync : TokenKind} {start : Nat}
    {outcome : Outcome} :
    (recover rule sync).run (.ofTokens tokens) budget start = some outcome ↔
      ∃ first, rule.run (.ofTokens tokens) budget start = some first ∧
        (first.verdict = .failed ∧
            (∃ position, skipPast (.ofTokens tokens) sync budget start = some position ∧
              outcome = ⟨.matched, position, [], first.errors⟩) ∨
          first.verdict ≠ .failed ∧ outcome = first) := by
  rw [run]
  show (rule.run (.ofTokens tokens) budget start).bind _ = _ ↔ _
  refine bind_eq_some_iff_of_verdict ?_ ?_
  · intro first hfailed
    rw [hfailed]
    rfl
  · intro first hother
    cases hverdict : first.verdict with
    | failed => exact absurd hverdict hother
    | _ => rfl

/-- A repetition honors the contract if its rounds do. -/
theorem honors_runTimes {plain : Prop} {step : Nat → Option Outcome}
    {exhausted : Nat → Nat → Option Outcome}
    (hstep : ∀ start outcome, step start = some outcome → outcome.Honors plain start)
    (hexhausted : ∀ needed start outcome, exhausted needed start = some outcome →
      outcome.Honors plain start) {limit needed start : Nat} {outcome : Outcome}
    (h : runTimes step exhausted limit needed start = some outcome) :
    outcome.Honors plain start := by
  induction limit generalizing needed start outcome with
  | zero => exact hexhausted _ _ _ h
  | succ limit ih =>
    obtain ⟨first, hfirst, hcases⟩ := runTimes_succ_eq_some_iff.mp h
    -- the round is rejected, fails, or matches and is followed by others
    have hhonors := hstep _ _ hfirst
    rcases hcases with ⟨hverdict, rfl⟩ | ⟨hverdict, rfl⟩ | ⟨hverdict, rest, rfl, hrest⟩
    · exact Outcome.honors_settle fun hplain => hhonors.silent hplain (by rw [hverdict]; decide)
    · exact hhonors
    · refine (hhonors.append hverdict ?_).rewindRejected
      split at hrest
      case isTrue hposition =>
        rw [hrest, hposition]
        exact (Outcome.honors_settle fun _ => rfl).toReports
      case isFalse => exact (ih hrest).toReports

/-- A sequence honors the contract if its members do; each starts where the one before it ends. -/
private theorem honors_runAll {rules : List Rule} {start : Nat} {outcome : Outcome}
    (hrules : ∀ rule ∈ rules, ∀ {start outcome},
      rule.run (.ofTokens tokens) budget start = some outcome →
        outcome.Honors rule.isPlain start)
    (h : runAll (.ofTokens tokens) budget rules start = some outcome) :
    outcome.Honors (arePlain rules) start := by
  induction rules generalizing start outcome with
  | nil =>
    rw [runAll] at h
    obtain rfl := Option.some.inj h
    exact Outcome.honors_success (Nat.le_refl _)
  | cons rule rules ih =>
    obtain ⟨hrule, hrules⟩ := List.forall_mem_cons.mp hrules
    have hplain : (arePlain (rule :: rules) : Prop) → rule.isPlain ∧ arePlain rules :=
      Bool.and_eq_true_iff.mp
    obtain ⟨first, hfirst, hcases⟩ := runAll_cons_eq_some_iff.mp h
    have hhonors := (hrule hfirst).weaken fun h => (hplain h).1
    rcases hcases with ⟨hverdict, rest, hrest, rfl⟩ | ⟨-, rfl⟩
    · have hrest' := (ih hrules hrest).weaken fun h => (hplain h).2
      exact (hhonors.append hverdict hrest'.toReports).rewind
    · exact hhonors.rewind

/-- Alternatives honor the contract if each of them does; all start at the same place. -/
private theorem honors_runAny {rules : List Rule} {start : Nat} {outcome : Outcome}
    (hrules : ∀ rule ∈ rules, ∀ {start outcome},
      rule.run (.ofTokens tokens) budget start = some outcome →
        outcome.Honors rule.isPlain start)
    (h : runAny (.ofTokens tokens) budget rules start = some outcome) :
    outcome.Honors (arePlain rules) start := by
  induction rules generalizing outcome with
  | nil =>
    rw [runAny] at h
    obtain rfl := Option.some.inj h
    exact Outcome.honors_refusal
  | cons rule rules ih =>
    obtain ⟨hrule, hrules⟩ := List.forall_mem_cons.mp hrules
    have hplain : (arePlain (rule :: rules) : Prop) → rule.isPlain ∧ arePlain rules :=
      Bool.and_eq_true_iff.mp
    obtain ⟨first, hfirst, hcases⟩ := runAny_cons_eq_some_iff.mp h
    have hhonors := (hrule hfirst).weaken fun h => (hplain h).1
    rcases hcases with ⟨hverdict, rest, hrest, rfl⟩ | ⟨-, rfl⟩
    · have hrest' := (ih hrules hrest).weaken fun h => (hplain h).2
      exact hrest'.afterRejected hhonors hverdict
    · exact hhonors

/-- **The contract of rules.** Every rule honors it, also when it is made of others. -/
theorem honors_run {rule : Rule} {start : Nat} {outcome : Outcome}
    (h : rule.run (.ofTokens tokens) budget start = some outcome) :
    outcome.Honors rule.isPlain start := by
  induction rule using induct generalizing start outcome with
  | primitive expectation decide =>
    rw [run_primitive] at h
    obtain rfl := Option.some.inj h
    -- the decision is a rejection, a match, or a failure with its one error
    cases decide (tokens start) (tokens (start + 1)) with
    | reject => exact Outcome.honors_refusal
    | accept taken nodes => exact Outcome.honors_success (Nat.le_add_right _ _)
    | fail skipped error => exact Outcome.honors_failed (Nat.le_add_right _ _)
  | all rules ih =>
    rw [run] at h
    exact honors_runAll ih h
  | any rules ih =>
    rw [run] at h
    exact honors_runAny ih h
  | times rule least most? ih =>
    cases most? with
    | none =>
      -- without an upper bound the rounds are never used up
      rw [run] at h
      refine honors_runTimes (fun _ _ => ih) ?_ h
      intro needed start outcome h
      cases h
    | some most =>
      rw [run] at h
      refine honors_runTimes (fun _ _ => ih) ?_ h
      intro needed start outcome h
      obtain rfl := Option.some.inj h
      exact Outcome.honors_settle fun _ => rfl
  | commit rule ih =>
    rw [run_commit] at h
    obtain ⟨first, hfirst, rfl⟩ := Option.map_eq_some_iff.mp h
    exact (ih hfirst).insist
  | subtree rule ih =>
    rw [run_subtree] at h
    obtain ⟨first, hfirst, rfl⟩ := Option.map_eq_some_iff.mp h
    exact (ih hfirst).gather
  | recover rule sync ih =>
    -- nothing is promised about how many errors a rule has that mends failures
    have hplain : ¬ ((recover rule sync).isPlain : Prop) := Bool.false_ne_true
    obtain ⟨first, hfirst, hcases⟩ := run_recover_eq_some_iff.mp h
    rcases hcases with ⟨-, position, hposition, rfl⟩ | ⟨-, rfl⟩
    · exact ⟨⟨le_of_skipPast hposition, Verdict.noConfusion, fun h => absurd h hplain,
        fun _ => Verdict.noConfusion⟩, Verdict.noConfusion⟩
    · exact (ih hfirst).weaken fun h => absurd h hplain
  | expecting rule expectation ih =>
    rw [run] at h
    exact ih h

end Rule

end LC3
