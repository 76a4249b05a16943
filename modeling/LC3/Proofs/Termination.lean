import LC3.Proofs.Backtracking
import LC3.Proofs.LineExtent
import LC3.Proofs.Spans

namespace LC3

/-!
# Rules that come to an end

The tokens that end a source never run out, so a repetition without an upper bound goes on for ever
if it consumes them. Nothing else can go wrong: a repetition stops at a round that consumes nothing,
and every other round takes away a token in front of the end. So a rule in which no unbounded
repetition consumes an end comes to one, and the budget of rounds has no part in what comes of it.

* `Rule.SparesEnd`, `Rule.RepeatsInside` — no part of a rule consumes an end of the source; none of
  its unbounded repetitions does.
* `Rule.Rounds` — how many rounds a repetition takes.
* `Rule.run_le_budget` — more rounds to spare make no difference.
* `Rule.RepeatsInside.exists_run` — such rules have an outcome.
* `Context.ComesToEnd`, `Context.comesToEnd_apply` — what that means in a context of a source.
-/

namespace Rule

/-! ### Rules inside of rules -/

/-- A rule that another one is made of, at any depth. Every rule is a part of itself. -/
inductive PartOf (part : Rule) : Rule → Prop where
  | self : PartOf part part
  | all {rules : List Rule} {rule : Rule} (hrule : rule ∈ rules) (h : PartOf part rule) :
    PartOf part (all rules)
  | any {rules : List Rule} {rule : Rule} (hrule : rule ∈ rules) (h : PartOf part rule) :
    PartOf part (any rules)
  | times {rule : Rule} {least : Nat} {most? : Option Nat} (h : PartOf part rule) :
    PartOf part (times rule least most?)
  | commit {rule : Rule} (h : PartOf part rule) : PartOf part (commit rule)
  | subtree {rule : Rule} (h : PartOf part rule) : PartOf part (subtree rule)
  | recover {rule : Rule} {sync : TokenKind} (h : PartOf part rule) :
    PartOf part (recover rule sync)
  | expecting {rule : Rule} {expectation : String} (h : PartOf part rule) :
    PartOf part (expecting rule expectation)

/-- Whether no primitive of a rule consumes a token that ends the source. -/
def SparesEnd (tokens : Nat → Token) (rule : Rule) : Prop :=
  ∀ expectation decide, (primitive expectation decide).PartOf rule → ∀ start taken nodes,
    decide (tokens start) (tokens (start + 1)) = .accept taken nodes →
      ∀ i < taken, (tokens (start + i)).kind ≠ .sourceEnd

/-- Whether no primitive beneath an unbounded repetition of a rule consumes a token that ends the
    source. -/
def RepeatsInside (tokens : Nat → Token) (rule : Rule) : Prop :=
  ∀ repeated least, (times repeated least none).PartOf rule → repeated.SparesEnd tokens

/-- How many rounds an unbounded repetition takes: one behind the other, up to the first that does
    not match or consumes nothing. -/
inductive Rounds (step : Nat → Option Outcome) : Nat → Nat → Prop where
  | last {start : Nat} {first : Outcome} (h : step start = some first)
    (hlast : first.verdict = .matched → first.position = start) : Rounds step start 1
  | next {start count : Nat} {first : Outcome} (h : step start = some first)
    (hmatched : first.verdict = .matched) (hforward : first.position ≠ start)
    (hrest : Rounds step first.position count) : Rounds step start (count + 1)

variable {tokens : Nat → Token} {rule : Rule} {rules : List Rule}

/-- A part of a part is a part of the whole. -/
theorem PartOf.trans {part middle : Rule} (h : part.PartOf middle) (h' : middle.PartOf rule) :
    part.PartOf rule := by
  induction h' with
  | self => exact h
  | all hrule _ ih => exact .all hrule ih
  | any hrule _ ih => exact .any hrule ih
  | times _ ih => exact .times ih
  | commit _ ih => exact .commit ih
  | subtree _ ih => exact .subtree ih
  | recover _ ih => exact .recover ih
  | expecting _ ih => exact .expecting ih

/-- The parts of a rule that consumes no end consume none. -/
theorem SparesEnd.part {part : Rule} (h : rule.SparesEnd tokens) (hpart : part.PartOf rule) :
    part.SparesEnd tokens :=
  fun expectation decide hprimitive => h expectation decide (hprimitive.trans hpart)

theorem RepeatsInside.part {part : Rule} (h : rule.RepeatsInside tokens)
    (hpart : part.PartOf rule) : part.RepeatsInside tokens :=
  fun repeated least htimes => h repeated least (htimes.trans hpart)

/-- A rule that consumes no end at all does not in its repetitions. -/
theorem SparesEnd.repeatsInside (h : rule.SparesEnd tokens) : rule.RepeatsInside tokens :=
  fun _ _ htimes => h.part (.trans (.times .self) htimes)

/-! ### What is consumed -/

end Rule

/-- Whether a rule that matches has not consumed an end of the source. -/
def Outcome.Spares (outcome : Outcome) (tokens : Nat → Token) (start : Nat) : Prop :=
  outcome.verdict = .matched →
    ∀ i, start ≤ i → i < outcome.position → (tokens i).kind ≠ .sourceEnd

namespace Outcome

variable {tokens : Nat → Token} {first rest outcome : Outcome} {start : Nat}

/-- Two matches consume no end if neither does. -/
theorem Spares.append (hfirst : first.Spares tokens start) (hmatched : first.verdict = .matched)
    (hrest : rest.Spares tokens first.position) : (first.append rest).Spares tokens start := by
  intro hverdict i hstart hi
  rcases Nat.lt_or_ge i first.position with hbefore | hbehind
  · exact hfirst hmatched i hstart hbefore
  · exact hrest hverdict i hbehind hi

/-- Going back consumes nothing. -/
theorem Spares.rewind (h : outcome.Spares tokens start) :
    (outcome.rewind start).Spares tokens start := by
  unfold Outcome.rewind
  split
  case h_1 => exact h
  case h_2 hverdict => exact fun hmatched => absurd hmatched hverdict

theorem Spares.rewindRejected (h : outcome.Spares tokens start) :
    (outcome.rewindRejected start).Spares tokens start := by
  unfold Outcome.rewindRejected
  split
  case h_1 => exact fun hmatched => Verdict.noConfusion hmatched
  case h_2 => exact h

/-- What ends where it starts consumes nothing. -/
theorem spares_of_position_eq (h : outcome.position = start) : outcome.Spares tokens start := by
  intro _ i hstart hi
  rw [h] at hi
  exact absurd hi (Nat.not_lt.mpr hstart)

theorem Spares.gather (h : outcome.Spares tokens start) : outcome.gather.Spares tokens start := by
  unfold Outcome.gather
  split <;> exact h

theorem Spares.insist {expected : String} {found : Token} (h : outcome.Spares tokens start) :
    (outcome.insist expected found).Spares tokens start := by
  unfold Outcome.insist
  split
  case h_1 => exact fun hmatched => Verdict.noConfusion hmatched
  case h_2 => exact h

end Outcome

namespace Rule

variable {tokens : Nat → Token} {rule : Rule} {rules : List Rule} {budget start : Nat}
  {outcome : Outcome}

/-- Skipping stops at the end of the source. -/
private theorem kind_of_skipPast {sync : TokenKind} {position : Nat}
    (h : skipPast (.ofTokens tokens) sync budget start = some position) {i : Nat}
    (hstart : start ≤ i) (hi : i < position) : (tokens i).kind ≠ .sourceEnd := by
  induction budget generalizing start with
  | zero => cases h
  | succ budget ih =>
    rw [skipPast_succ] at h
    split at h
    case isTrue =>
      obtain rfl := Option.some.inj h
      exact absurd hi (Nat.not_lt.mpr hstart)
    case isFalse hinside =>
      rcases Nat.eq_or_lt_of_le hstart with rfl | hbehind
      · exact hinside
      · split at h
        case isTrue =>
          obtain rfl := Option.some.inj h
          omega
        case isFalse => exact ih h hbehind

/-- Rounds consume no end if a single round does not. -/
private theorem spares_runTimes {step : Nat → Option Outcome}
    {exhausted : Nat → Nat → Option Outcome}
    (hstep : ∀ start outcome, step start = some outcome → outcome.Spares tokens start)
    (hexhausted : ∀ needed start outcome, exhausted needed start = some outcome →
      outcome.position = start) {limit needed : Nat}
    (h : runTimes step exhausted limit needed start = some outcome) :
    outcome.Spares tokens start := by
  induction limit generalizing needed start outcome with
  | zero => exact Outcome.spares_of_position_eq (hexhausted _ _ _ h)
  | succ limit ih =>
    obtain ⟨first, hfirst, hcases⟩ := runTimes_succ_eq_some_iff.mp h
    have hspares := hstep _ _ hfirst
    rcases hcases with ⟨-, rfl⟩ | ⟨-, rfl⟩ | ⟨hverdict, rest, rfl, hrest⟩
    · exact Outcome.spares_of_position_eq rfl
    · exact hspares
    · refine (hspares.append hverdict ?_).rewindRejected
      split at hrest
      case isTrue hposition =>
        rw [hrest]
        exact Outcome.spares_of_position_eq hposition.symm
      case isFalse => exact ih hrest

private theorem spares_runAll
    (hrules : ∀ rule ∈ rules, ∀ {start outcome},
      rule.run (.ofTokens tokens) budget start = some outcome → outcome.Spares tokens start)
    (h : runAll (.ofTokens tokens) budget rules start = some outcome) :
    outcome.Spares tokens start := by
  induction rules generalizing start outcome with
  | nil =>
    rw [runAll] at h
    obtain rfl := Option.some.inj h
    exact Outcome.spares_of_position_eq rfl
  | cons rule rules ih =>
    obtain ⟨hrule, hrules⟩ := List.forall_mem_cons.mp hrules
    obtain ⟨first, hfirst, ⟨hverdict, rest, hrest, rfl⟩ | ⟨-, rfl⟩⟩ :=
      runAll_cons_eq_some_iff.mp h
    · exact ((hrule hfirst).append hverdict (ih hrules hrest)).rewind
    · exact (hrule hfirst).rewind

private theorem spares_runAny
    (hrules : ∀ rule ∈ rules, ∀ {start outcome},
      rule.run (.ofTokens tokens) budget start = some outcome → outcome.Spares tokens start)
    (h : runAny (.ofTokens tokens) budget rules start = some outcome) :
    outcome.Spares tokens start := by
  induction rules generalizing outcome with
  | nil =>
    rw [runAny] at h
    obtain rfl := Option.some.inj h
    exact Outcome.spares_of_position_eq rfl
  | cons rule rules ih =>
    obtain ⟨hrule, hrules⟩ := List.forall_mem_cons.mp hrules
    obtain ⟨first, hfirst, ⟨-, rest, hrest, rfl⟩ | ⟨-, rfl⟩⟩ := runAny_cons_eq_some_iff.mp h
    · have hspares : rest.Spares tokens start := ih hrules hrest
      exact hspares
    · exact hrule hfirst

/-- **Ends are spared.** A rule whose primitives consume no token that ends the source consumes none
    either, whatever it is made of. -/
theorem SparesEnd.spares_run (h : rule.SparesEnd tokens)
    (hrun : rule.run (.ofTokens tokens) budget start = some outcome) :
    outcome.Spares tokens start := by
  induction rule using induct generalizing start outcome with
  | primitive expectation decide =>
    rw [run_primitive] at hrun
    obtain rfl := Option.some.inj hrun
    have hdecide := h expectation decide .self start
    cases hdecision : decide (tokens start) (tokens (start + 1)) with
    | reject => exact Outcome.spares_of_position_eq rfl
    | fail skipped error => exact fun hmatched => Verdict.noConfusion hmatched
    | accept taken nodes =>
      -- the tokens that are accepted are those that the decision spares
      intro _ i hstart hi
      have htaken : i < start + taken := hi
      have hkind := hdecide taken nodes hdecision (i - start) (by omega)
      rwa [Nat.add_sub_cancel' hstart] at hkind
  | all rules ih =>
    rw [run] at hrun
    exact spares_runAll (fun rule hrule => ih rule hrule (h.part (.all hrule .self))) hrun
  | any rules ih =>
    rw [run] at hrun
    exact spares_runAny (fun rule hrule => ih rule hrule (h.part (.any hrule .self))) hrun
  | times rule least most? ih =>
    have hstep := fun start outcome => @ih start outcome (h.part (.times .self))
    cases most? with
    | none =>
      rw [run] at hrun
      -- without a limit the budget runs out, which is no outcome
      refine spares_runTimes hstep ?_ hrun
      intro needed start outcome h
      cases h
    | some most =>
      rw [run] at hrun
      refine spares_runTimes hstep ?_ hrun
      intro needed start outcome h
      obtain rfl := Option.some.inj h
      rfl
  | commit rule ih =>
    rw [run_commit] at hrun
    obtain ⟨first, hfirst, rfl⟩ := Option.map_eq_some_iff.mp hrun
    exact (ih (h.part (.commit .self)) hfirst).insist
  | subtree rule ih =>
    rw [run_subtree] at hrun
    obtain ⟨first, hfirst, rfl⟩ := Option.map_eq_some_iff.mp hrun
    exact (ih (h.part (.subtree .self)) hfirst).gather
  | recover rule sync ih =>
    obtain ⟨first, hfirst, ⟨-, position, hposition, rfl⟩ | ⟨-, rfl⟩⟩ :=
      run_recover_eq_some_iff.mp hrun
    · -- what fails skips up to the end of the source at most
      exact fun _ i hstart hi => kind_of_skipPast hposition hstart hi
    · exact ih (h.part (.recover .self)) hfirst
  | expecting rule expectation ih =>
    rw [run] at hrun
    exact ih (h.part (.expecting .self)) hrun

/-! ### Rounds -/

variable {step : Nat → Option Outcome} {exhausted : Nat → Nat → Option Outcome}
  {limit needed count : Nat}

/-- A repetition that has enough rounds returns. -/
theorem Rounds.exists_runTimes (h : Rounds step start count) (hcount : count ≤ limit) :
    ∃ outcome, runTimes step exhausted limit needed start = some outcome := by
  induction h generalizing limit needed with
  | @last start first hfirst hlast =>
    obtain ⟨limit, rfl⟩ := Nat.exists_eq_add_one_of_ne_zero (Nat.ne_zero_of_lt hcount)
    cases hverdict : first.verdict with
    | rejected =>
      exact ⟨_, runTimes_succ_eq_some_iff.mpr ⟨first, hfirst, .inl ⟨hverdict, rfl⟩⟩⟩
    | failed =>
      exact ⟨_, runTimes_succ_eq_some_iff.mpr ⟨first, hfirst, .inr (.inl ⟨hverdict, rfl⟩)⟩⟩
    | matched =>
      exact ⟨_, runTimes_succ_eq_some_iff.mpr
        ⟨first, hfirst, .inr (.inr ⟨hverdict, _, rfl, (if_pos (hlast hverdict)).mpr rfl⟩)⟩⟩
  | @next start count first hfirst hmatched hforward hrest ih =>
    obtain ⟨limit, rfl⟩ := Nat.exists_eq_add_one_of_ne_zero (Nat.ne_zero_of_lt hcount)
    obtain ⟨rest, hrun⟩ := @ih limit (needed - 1) (Nat.le_of_succ_le_succ hcount)
    exact ⟨_, runTimes_succ_eq_some_iff.mpr
      ⟨first, hfirst, .inr (.inr ⟨hmatched, rest, rfl, by rwa [if_neg hforward]⟩)⟩⟩

/-- A repetition that returns although it has no end but that of its rounds has taken some, and no
    more than it may. -/
theorem exists_rounds_of_runTimes (hexhausted : ∀ needed start, exhausted needed start = none)
    (h : runTimes step exhausted limit needed start = some outcome) :
    ∃ count ≤ limit, Rounds step start count := by
  induction limit generalizing needed start outcome with
  | zero =>
    rw [runTimes, hexhausted] at h
    cases h
  | succ limit ih =>
    obtain ⟨first, hfirst, hcases⟩ := runTimes_succ_eq_some_iff.mp h
    rcases hcases with ⟨hrejected, -⟩ | ⟨hfailed, -⟩ | ⟨hmatched, rest, -, hrest⟩
    · -- a round that does not match is the last one
      refine ⟨1, by omega, .last hfirst fun hmatched => ?_⟩
      rw [hrejected] at hmatched
      cases hmatched
    · refine ⟨1, by omega, .last hfirst fun hmatched => ?_⟩
      rw [hfailed] at hmatched
      cases hmatched
    · split at hrest
      case isTrue hposition => exact ⟨1, by omega, .last hfirst fun _ => hposition⟩
      case isFalse hforward =>
        obtain ⟨count, hcount, hrounds⟩ := ih hrest
        exact ⟨count + 1, by omega, .next hfirst hmatched hforward hrounds⟩

/-- Rounds that all consume something never come to an end. -/
theorem Rounds.false_of_endless (h : Rounds step start count)
    (hstep : ∀ position, start ≤ position → ∃ first, step position = some first ∧
      first.verdict = .matched ∧ position < first.position) : False := by
  induction h with
  | @last start first hfirst hlast =>
    obtain ⟨first', hfirst', hmatched, hforward⟩ := hstep start (Nat.le_refl _)
    obtain rfl := Option.some.inj (hfirst.symm.trans hfirst')
    exact Nat.ne_of_gt hforward (hlast hmatched)
  | @next start count first hfirst hmatched hmoved hrest ih =>
    obtain ⟨first', hfirst', -, hforward⟩ := hstep start (Nat.le_refl _)
    obtain rfl := Option.some.inj (hfirst.symm.trans hfirst')
    exact ih fun position hposition =>
      hstep position (Nat.le_trans (Nat.le_of_lt hforward) hposition)

/-- **Rounds are bounded by the tokens that are left.** If the tokens from some place on all end the
    source, and rounds consume none of them, then there is at most one more round than there are
    tokens in front of that place. -/
theorem exists_rounds {last : Nat} (hlast : ∀ i, last ≤ i → (tokens i).kind = .sourceEnd)
    (hstep : ∀ position, start ≤ position → ∃ outcome, step position = some outcome ∧
      position ≤ outcome.position ∧ outcome.Spares tokens position) :
    ∃ count ≤ last - start + 1, Rounds step start count := by
  -- the induction is on the tokens that are left: another round has one less of them
  induction hleft : last - start using Nat.strong_induction_on generalizing start with
  | _ left ih =>
    obtain ⟨first, hfirst, hforward, hspares⟩ := hstep start (Nat.le_refl _)
    by_cases hagain : first.verdict = .matched ∧ first.position ≠ start
    · obtain ⟨hmatched, hmoved⟩ := hagain
      have hinside : ∀ i, start ≤ i → i < first.position → i < last := by
        intro i hstart hi
        by_contra hbehind
        exact hspares hmatched i hstart hi (hlast i (Nat.not_lt.mp hbehind))
      have hless : last - first.position < left := by
        have hstart := hinside start (Nat.le_refl _) (by omega)
        omega
      obtain ⟨count, hcount, hrounds⟩ := ih _ hless
        (fun position hposition => hstep position (Nat.le_trans hforward hposition)) rfl
      exact ⟨count + 1, by omega, .next hfirst hmatched hmoved hrounds⟩
    · refine ⟨1, by omega, .last hfirst fun hmatched => ?_⟩
      by_contra hmoved
      exact hagain ⟨hmatched, hmoved⟩

/-! ### Budgets -/

/-- More rounds to spare make no difference to a repetition that returns. -/
theorem runTimes_mono {step' : Nat → Option Outcome}
    {exhausted' : Nat → Nat → Option Outcome} {more : Nat}
    (hstep : ∀ start outcome, step start = some outcome → step' start = some outcome)
    (hexhausted : ∀ needed start outcome, exhausted needed start = some outcome →
      runTimes step' exhausted' more needed start = some outcome)
    (h : runTimes step exhausted limit needed start = some outcome) :
    runTimes step' exhausted' (limit + more) needed start = some outcome := by
  induction limit generalizing needed start outcome with
  | zero =>
    rw [Nat.zero_add]
    exact hexhausted _ _ _ h
  | succ limit ih =>
    rw [Nat.add_right_comm, runTimes_succ_eq_some_iff]
    obtain ⟨first, hfirst, hcases⟩ := runTimes_succ_eq_some_iff.mp h
    refine ⟨first, hstep _ _ hfirst, hcases.imp_right (Or.imp_right ?_)⟩
    rintro ⟨hverdict, rest, rfl, hrest⟩
    refine ⟨hverdict, rest, rfl, ?_⟩
    split at hrest
    case isTrue hposition => rwa [if_pos hposition]
    case isFalse hposition =>
      rw [if_neg hposition]
      exact ih hrest

/-- More tokens to spare make no difference to skipping that comes to an end. -/
theorem skipPast_mono {sync : TokenKind} {position more : Nat}
    (h : skipPast (.ofTokens tokens) sync budget start = some position) :
    skipPast (.ofTokens tokens) sync (budget + more) start = some position := by
  induction budget generalizing start with
  | zero => cases h
  | succ budget ih =>
    rw [Nat.add_right_comm, skipPast_succ]
    rw [skipPast_succ] at h
    split at h
    case isTrue hend => rwa [if_pos hend]
    case isFalse hend =>
      rw [if_neg hend]
      split at h
      case isTrue hsync => rwa [if_pos hsync]
      case isFalse hsync =>
        rw [if_neg hsync]
        exact ih h

theorem runAll_mono {budget' : Nat}
    (hrules : ∀ rule ∈ rules, ∀ {start outcome},
      rule.run (.ofTokens tokens) budget start = some outcome →
        rule.run (.ofTokens tokens) budget' start = some outcome)
    (h : runAll (.ofTokens tokens) budget rules start = some outcome) :
    runAll (.ofTokens tokens) budget' rules start = some outcome := by
  induction rules generalizing start outcome with
  | nil =>
    rw [runAll] at h ⊢
    exact h
  | cons rule rules ih =>
    obtain ⟨hrule, hrules⟩ := List.forall_mem_cons.mp hrules
    obtain ⟨first, hfirst, hcases⟩ := runAll_cons_eq_some_iff.mp h
    refine runAll_cons_eq_some_iff.mpr ⟨first, hrule hfirst, hcases.imp_left ?_⟩
    rintro ⟨hverdict, rest, hrest, rfl⟩
    exact ⟨hverdict, rest, ih hrules hrest, rfl⟩

theorem runAny_mono {budget' : Nat}
    (hrules : ∀ rule ∈ rules, ∀ {start outcome},
      rule.run (.ofTokens tokens) budget start = some outcome →
        rule.run (.ofTokens tokens) budget' start = some outcome)
    (h : runAny (.ofTokens tokens) budget rules start = some outcome) :
    runAny (.ofTokens tokens) budget' rules start = some outcome := by
  induction rules generalizing outcome with
  | nil =>
    rw [runAny] at h ⊢
    exact h
  | cons rule rules ih =>
    obtain ⟨hrule, hrules⟩ := List.forall_mem_cons.mp hrules
    obtain ⟨first, hfirst, hcases⟩ := runAny_cons_eq_some_iff.mp h
    refine runAny_cons_eq_some_iff.mpr ⟨first, hrule hfirst, hcases.imp_left ?_⟩
    rintro ⟨hverdict, rest, hrest, rfl⟩
    exact ⟨hverdict, rest, ih hrules hrest, rfl⟩

/-- **Rounds to spare make no difference.** What a rule comes to with some budget it comes to with
    every larger one. -/
theorem run_le_budget {budget' : Nat} (hbudget : budget ≤ budget')
    (h : rule.run (.ofTokens tokens) budget start = some outcome) :
    rule.run (.ofTokens tokens) budget' start = some outcome := by
  obtain ⟨more, rfl⟩ := Nat.exists_eq_add_of_le hbudget
  induction rule using induct generalizing start outcome with
  | primitive expectation decide =>
    rw [run_primitive] at h ⊢
    exact h
  | all rules ih =>
    rw [run] at h ⊢
    exact runAll_mono ih h
  | any rules ih =>
    rw [run] at h ⊢
    exact runAny_mono ih h
  | times rule least most? ih =>
    cases most? with
    | none =>
      rw [run] at h ⊢
      refine runTimes_mono (fun _ _ => ih) ?_ h
      intro needed start outcome h
      cases h
    | some most =>
      rw [run] at h ⊢
      -- the limit of the rule does not grow with the budget
      show runTimes _ _ (most + 0) _ _ = _
      refine runTimes_mono (fun _ _ => ih) ?_ h
      intro needed start outcome h
      rw [runTimes]
      exact h
  | commit rule ih =>
    rw [run_commit] at h ⊢
    obtain ⟨first, hfirst, rfl⟩ := Option.map_eq_some_iff.mp h
    rw [ih hfirst]
    rfl
  | subtree rule ih =>
    rw [run_subtree] at h ⊢
    obtain ⟨first, hfirst, rfl⟩ := Option.map_eq_some_iff.mp h
    rw [ih hfirst]
    rfl
  | recover rule sync ih =>
    obtain ⟨first, hfirst, hcases⟩ := run_recover_eq_some_iff.mp h
    refine run_recover_eq_some_iff.mpr ⟨first, ih hfirst, hcases.imp_left ?_⟩
    rintro ⟨hverdict, position, hposition, rfl⟩
    exact ⟨hverdict, position, skipPast_mono hposition, rfl⟩
  | expecting rule expectation ih =>
    rw [run] at h ⊢
    exact ih h

/-! ### Outcomes -/

/-- Skipping comes to an end with the source. -/
theorem exists_skipPast {sync : TokenKind} {last : Nat}
    (hlast : ∀ i, last ≤ i → (tokens i).kind = .sourceEnd) (hbudget : last - start < budget) :
    ∃ position, skipPast (.ofTokens tokens) sync budget start = some position := by
  induction budget generalizing start with
  | zero => exact absurd hbudget (Nat.not_lt_zero _)
  | succ budget ih =>
    rw [skipPast_succ]
    by_cases hend : (tokens start).kind = .sourceEnd
    · exact ⟨start, if_pos hend⟩
    · rw [if_neg hend]
      have hinside : start < last := Nat.lt_of_not_le fun hbehind => hend (hlast start hbehind)
      split
      · exact ⟨_, rfl⟩
      · exact ih (by omega)

/-- Rounds that return are followed by others that do, as long as there are any. -/
private theorem returns_runTimes
    (hstep : ∀ position, start ≤ position →
      ∃ outcome, step position = some outcome ∧ position ≤ outcome.position)
    (hexhausted : ∀ needed position, ∃ outcome, exhausted needed position = some outcome) :
    ∃ outcome, runTimes step exhausted limit needed start = some outcome := by
  induction limit generalizing needed start with
  | zero => exact hexhausted needed start
  | succ limit ih =>
    obtain ⟨first, hfirst, hforward⟩ := hstep start (Nat.le_refl _)
    by_cases hagain : first.verdict = .matched ∧ first.position ≠ start
    · obtain ⟨hmatched, hmoved⟩ := hagain
      obtain ⟨rest, hrest⟩ := @ih first.position (needed - 1)
        fun position hposition => hstep position (Nat.le_trans hforward hposition)
      exact ⟨_, runTimes_succ_eq_some_iff.mpr
        ⟨first, hfirst, .inr (.inr ⟨hmatched, rest, rfl, by rwa [if_neg hmoved]⟩)⟩⟩
    · -- the round is the only one
      have hlast : Rounds step start 1 := by
        refine .last hfirst fun hmatched => ?_
        by_contra hmoved
        exact hagain ⟨hmatched, hmoved⟩
      exact hlast.exists_runTimes (Nat.le_add_left 1 limit)

private theorem returns_runAll {last : Nat}
    (hrules : ∀ rule ∈ rules, ∀ {start}, last - start < budget →
      ∃ outcome, rule.run (.ofTokens tokens) budget start = some outcome)
    (hbudget : last - start < budget) :
    ∃ outcome, runAll (.ofTokens tokens) budget rules start = some outcome := by
  induction rules generalizing start with
  | nil =>
    rw [runAll]
    exact ⟨_, rfl⟩
  | cons rule rules ih =>
    obtain ⟨hrule, hrules⟩ := List.forall_mem_cons.mp hrules
    obtain ⟨first, hfirst⟩ := hrule hbudget
    by_cases hmatched : first.verdict = .matched
    · -- the next rule starts no earlier, so its budget is enough
      have hforward := (honors_run hfirst).forward
      obtain ⟨rest, hrest⟩ := @ih first.position hrules (by omega)
      exact ⟨_, runAll_cons_eq_some_iff.mpr ⟨first, hfirst, .inl ⟨hmatched, rest, hrest, rfl⟩⟩⟩
    · exact ⟨_, runAll_cons_eq_some_iff.mpr ⟨first, hfirst, .inr ⟨hmatched, rfl⟩⟩⟩

private theorem returns_runAny
    (hrules : ∀ rule ∈ rules, ∃ outcome, rule.run (.ofTokens tokens) budget start = some outcome) :
    ∃ outcome, runAny (.ofTokens tokens) budget rules start = some outcome := by
  induction rules with
  | nil =>
    rw [runAny]
    exact ⟨_, rfl⟩
  | cons rule rules ih =>
    obtain ⟨hrule, hrules⟩ := List.forall_mem_cons.mp hrules
    obtain ⟨first, hfirst⟩ := hrule
    by_cases hrejected : first.verdict = .rejected
    · obtain ⟨rest, hrest⟩ := ih hrules
      exact ⟨_, runAny_cons_eq_some_iff.mpr ⟨first, hfirst, .inl ⟨hrejected, rest, hrest, rfl⟩⟩⟩
    · exact ⟨_, runAny_cons_eq_some_iff.mpr ⟨first, hfirst, .inr ⟨hrejected, rfl⟩⟩⟩

/-- **Rules come to an end.** If the tokens from some place on all end the source, and no unbounded
    repetition of a rule consumes one of them, the rule has an outcome with every budget of more
    rounds than there are tokens in front of that place. -/
theorem RepeatsInside.exists_run (h : rule.RepeatsInside tokens) {last : Nat}
    (hlast : ∀ i, last ≤ i → (tokens i).kind = .sourceEnd) (hbudget : last - start < budget) :
    ∃ outcome, rule.run (.ofTokens tokens) budget start = some outcome := by
  induction rule using induct generalizing start with
  | primitive expectation decide => exact ⟨_, run_primitive⟩
  | all rules ih =>
    rw [run]
    exact returns_runAll (fun rule hrule => ih rule hrule (h.part (.all hrule .self))) hbudget
  | any rules ih =>
    rw [run]
    exact returns_runAny fun rule hrule => ih rule hrule (h.part (.any hrule .self)) hbudget
  | times rule least most? ih =>
    have hstep : ∀ position, start ≤ position → ∃ outcome,
        rule.run (.ofTokens tokens) budget position = some outcome ∧
          position ≤ outcome.position := by
      intro position hposition
      obtain ⟨outcome, hrun⟩ := @ih position (h.part (.times .self)) (by omega)
      exact ⟨outcome, hrun, (honors_run hrun).forward⟩
    cases most? with
    | none =>
      rw [run]
      have hround : ∀ position, start ≤ position → ∃ outcome,
          rule.run (.ofTokens tokens) budget position = some outcome ∧
            position ≤ outcome.position ∧ outcome.Spares tokens position := by
        intro position hposition
        obtain ⟨outcome, hrun, hforward⟩ := hstep position hposition
        exact ⟨outcome, hrun, hforward, (h rule least .self).spares_run hrun⟩
      -- no round consumes the end, so there are at most as many as tokens
      obtain ⟨count, hcount, hrounds⟩ := exists_rounds hlast hround
      exact hrounds.exists_runTimes (by omega)
    | some most =>
      rw [run]
      exact returns_runTimes hstep fun needed position => ⟨_, rfl⟩
  | commit rule ih =>
    obtain ⟨outcome, hrun⟩ := ih (h.part (.commit .self)) hbudget
    exact ⟨_, by rw [run_commit, hrun]; rfl⟩
  | subtree rule ih =>
    obtain ⟨outcome, hrun⟩ := ih (h.part (.subtree .self)) hbudget
    exact ⟨_, by rw [run_subtree, hrun]; rfl⟩
  | recover rule sync ih =>
    obtain ⟨outcome, hrun⟩ := ih (h.part (.recover .self)) hbudget
    by_cases hfailed : outcome.verdict = .failed
    · obtain ⟨position, hposition⟩ := exists_skipPast hlast hbudget
      exact ⟨_, run_recover_eq_some_iff.mpr
        ⟨outcome, hrun, .inl ⟨hfailed, position, hposition, rfl⟩⟩⟩
    · exact ⟨_, run_recover_eq_some_iff.mpr ⟨outcome, hrun, .inr ⟨hfailed, rfl⟩⟩⟩
  | expecting rule expectation ih =>
    rw [run]
    exact ih (h.part (.expecting .self)) hbudget

/-! ### The rules of a source -/

/-- An atom of another kind consumes no end. -/
theorem sparesEnd_atom {kind : TokenKind} (h : kind ≠ .sourceEnd) :
    (atom kind).SparesEnd tokens := by
  intro expectation decide hpart
  cases hpart
  intro start taken nodes hdecide i hi hend
  dsimp only at hdecide
  split at hdecide
  case isTrue hkind =>
    cases hdecide
    obtain rfl : i = 0 := Nat.lt_one_iff.mp hi
    exact h (hkind.symm.trans hend)
  case isFalse => cases hdecide

/-- A combination consumes no end if its rules do not. -/
theorem sparesEnd_all (h : ∀ rule ∈ rules, rule.SparesEnd tokens) :
    (all rules).SparesEnd tokens := by
  intro expectation decide hpart
  cases hpart with
  | all hrule hpart => exact h _ hrule expectation decide hpart

/-- Neither does a repetition of a rule that does not. -/
theorem sparesEnd_times {least : Nat} {most? : Option Nat} (h : rule.SparesEnd tokens) :
    (times rule least most?).SparesEnd tokens := by
  intro expectation decide hpart
  cases hpart with
  | times hpart => exact h expectation decide hpart

theorem sparesEnd_commit (h : rule.SparesEnd tokens) :
    (commit rule).SparesEnd tokens := by
  intro expectation decide hpart
  cases hpart with
  | commit hpart => exact h expectation decide hpart

theorem sparesEnd_recover {sync : TokenKind} (h : rule.SparesEnd tokens) :
    (recover rule sync).SparesEnd tokens := by
  intro expectation decide hpart
  cases hpart with
  | recover hpart => exact h expectation decide hpart

/-- A rule that stays on its line consumes no end. -/
theorem Avoids.sparesEnd (h : rule.Avoids Grammar.EndsLine) : rule.SparesEnd tokens := by
  intro expectation decide hpart
  induction hpart with
  | self =>
    intro start taken nodes hdecide i hi hend
    cases h with
    | primitive hprimitive =>
      have havoids := hprimitive (tokens start) (tokens (start + 1))
      rw [hdecide] at havoids
      have htwo : taken ≤ 2 := havoids.atMost
      -- a primitive consumes no more than the two tokens that it looks at
      rcases Nat.lt_or_ge 0 i with hpositive | hzero
      · obtain rfl : i = 1 := by omega
        exact havoids.second hi (.inr hend)
      · obtain rfl : i = 0 := Nat.le_zero.mp hzero
        exact havoids.first hi (.inr hend)
  | all hrule _ ih => cases h with | all h => exact ih (h _ hrule)
  | any hrule _ ih => cases h with | any h => exact ih (h _ hrule)
  | times _ ih => cases h with | times h => exact ih h
  | commit _ ih => cases h with | commit h => exact ih h
  | subtree _ ih => cases h with | subtree h => exact ih h
  | recover _ ih => cases h
  | expecting _ ih => cases h with | expecting h => exact ih h

end Rule

namespace Line

variable {tokens : Nat → Token}

/-- The end of a line is not consumed if it is that of the source. -/
private theorem sparesEnd_lineEnd : lineEnd.SparesEnd tokens := by
  intro expectation decide hpart
  cases hpart
  intro start taken nodes hdecide i hi hend
  dsimp only at hdecide
  split at hdecide
  case h_1 hkind =>
    cases hdecide
    obtain rfl : i = 0 := Nat.lt_one_iff.mp hi
    rw [Nat.add_zero, hkind] at hend
    cases hend
  case h_2 =>
    -- the end itself is left where it is
    cases hdecide
    exact absurd hi (Nat.not_lt_zero i)
  case h_3 => cases hdecide

/-- No line consumes the end of the source. -/
theorem sparesEnd_line : line.SparesEnd tokens := by
  refine Rule.sparesEnd_all ?_
  simp only [List.forall_mem_cons, List.not_mem_nil, false_implies, implies_true, and_true]
  exact ⟨Rule.sparesEnd_times avoids_label.sparesEnd,
    Rule.sparesEnd_times avoids_statement.sparesEnd, Rule.sparesEnd_commit sparesEnd_lineEnd⟩

/-- Only the last rule of a document consumes the end of the source, and that is not repeated. -/
theorem repeatsInside_document : document.RepeatsInside tokens := by
  have hlines : (Rule.many (.recover line .linebreak)).SparesEnd tokens :=
    Rule.sparesEnd_times (Rule.sparesEnd_recover sparesEnd_line)
  intro repeated least hpart
  cases hpart with
  | all hrule hpart =>
    simp only [List.mem_cons, List.not_mem_nil, or_false] at hrule
    rcases hrule with rfl | rfl
    · exact hlines.repeatsInside repeated least hpart
    · cases hpart

end Line

/-! ### Contexts of a source -/

/-- The number of tokens of a source from a place on, those that end it aside. -/
def tokensLeft (source : String) (position : Nat) : Nat :=
  ((Lexer.ofSource source).tokens.1.drop position).countP (·.kind ≠ .sourceEnd)

/-- The tokens of a source from some place on all end it, and up to there none does. -/
theorem exists_end (source : String) :
    ∃ last ≤ source.toList.length, (∀ position, tokensLeft source position = last - position) ∧
      ∀ i, ((Lexer.ofSource source).nth i).kind = .sourceEnd ↔ last ≤ i := by
  obtain ⟨body, last, htokens, hlast, hbody, hlength⟩ := Lexer.exists_tokens_ofSource source
  obtain ⟨⟨last', hspans, -⟩, hkind⟩ := Lexer.splits_spans (Lexer.stands_ofSource source) rfl
    (Nat.lt_succ_self (Lexer.ofSource source).rest.length)
  -- both ways of taking the tokens apart give as many in front of the end
  have hsame : body.length = ((Lexer.ofSource source).spans
      (Lexer.ofSource source).rest.length.succ).length := by
    have hlengths := congrArg List.length (htokens.symm.trans hspans)
    simpa using hlengths
  refine ⟨body.length, hlength, fun position => ?_, fun i => by rw [hkind i, hsame]⟩
  have hleft : (body.drop position).countP (·.kind ≠ .sourceEnd) = body.length - position := by
    rw [List.countP_eq_length.mpr, List.length_drop]
    intro token htoken
    exact decide_eq_true (hbody token (List.mem_of_mem_drop htoken))
  have hnone : ([last].drop (position - body.length)).countP (·.kind ≠ .sourceEnd) = 0 := by
    rw [List.countP_eq_zero]
    intro token htoken
    rw [List.mem_singleton.mp (List.mem_of_mem_drop htoken), hlast]
    decide
  rw [tokensLeft, htokens, List.drop_append, List.countP_append, hleft, hnone, Nat.add_zero]

namespace Context

variable {context : Context} {source : String} {rule : Rule}

/-- Whether a rule comes to an end in a context of a source, and how soon. -/
structure ComesToEnd (context : Context) (source : String) (rule : Rule) : Prop where
  /-- It returns what it comes to with every budget that has a round more than there are tokens
      left. -/
  returns : ∃ outcome behind, context.apply rule = .ok (outcome.verdict, behind) ∧
    After (Lexer.ofSource source).nth context outcome behind ∧
    ∀ budget, tokensLeft source context.position < budget →
      rule.run (.ofTokens (Lexer.ofSource source).nth) budget context.position = some outcome
  /-- Wherever an unbounded repetition in it starts, it takes at most one round more than there are
      tokens left there. -/
  rounds : ∀ repeated least, (Rule.times repeated least none).PartOf rule →
    ∀ start budget, tokensLeft source start < budget →
      ∃ count ≤ tokensLeft source start + 1,
        Rule.Rounds (repeated.run (.ofTokens (Lexer.ofSource source).nth) budget) start count

/-- Rules whose unbounded repetitions do not consume the end of a source come to an end in it. -/
theorem Reads.comesToEnd (h : context.Reads source)
    (hrule : rule.RepeatsInside (Lexer.ofSource source).nth) : context.ComesToEnd source rule := by
  obtain ⟨last, hlength, hleft, hkind⟩ := exists_end source
  have hlast : ∀ i, last ≤ i → ((Lexer.ofSource source).nth i).kind = .sourceEnd :=
    fun i => (hkind i).mpr
  refine ⟨?_, ?_⟩
  · -- the budget of the source is enough, and a larger one makes no difference
    obtain ⟨outcome, hrun⟩ : ∃ outcome, rule.run (.ofTokens (Lexer.ofSource source).nth)
        (last - context.position + 1) context.position = some outcome :=
      hrule.exists_run hlast (Nat.lt_succ_self _)
    have hrun' : ∀ budget, tokensLeft source context.position < budget →
        rule.run (.ofTokens (Lexer.ofSource source).nth) budget context.position =
          some outcome := by
      intro budget hbudget
      rw [hleft] at hbudget
      exact Rule.run_le_budget hbudget hrun
    have henough : tokensLeft source context.position < context.budget := by
      have hbudget := h.enough
      rw [hleft]
      omega
    obtain ⟨behind, happly, hreads, hbudget, hposition, hnodes, herrors⟩ :=
      h.exists_apply (hrun' context.budget henough)
    exact ⟨outcome, behind, happly, ⟨hreads.holds, hbudget, hposition, hnodes, herrors⟩, hrun'⟩
  · -- a repetition inside the rule, from wherever it starts
    intro repeated least hpart start budget hbudget
    have hspares := hrule repeated least hpart
    rw [hleft] at hbudget ⊢
    refine Rule.exists_rounds hlast fun position hposition => ?_
    obtain ⟨outcome, hrun⟩ : ∃ outcome,
        repeated.run (.ofTokens (Lexer.ofSource source).nth) budget position = some outcome :=
      hspares.repeatsInside.exists_run hlast (by omega)
    exact ⟨outcome, hrun, (Rule.honors_run hrun).forward, hspares.spares_run hrun⟩

/-- **Rules come to an end in every context of a source**, unless an unbounded repetition consumes
    the end of the source; the rule of a whole source does. A repetition of that end never stops. -/
theorem comesToEnd_apply (h : context.Reads source) :
    (∀ rule : Rule, rule.RepeatsInside (Lexer.ofSource source).nth →
      context.ComesToEnd source rule) ∧
    context.ComesToEnd source Line.document ∧
    (tokensLeft source context.position = 0 → ∀ budget,
      (Rule.many (.atom .sourceEnd)).run (.ofTokens (Lexer.ofSource source).nth) budget
        context.position = none) := by
  refine ⟨fun rule hrule => h.comesToEnd hrule, h.comesToEnd Line.repeatsInside_document, ?_⟩
  intro hleft budget
  obtain ⟨last, -, hlast, hkind⟩ := exists_end source
  rw [hlast] at hleft
  rw [Rule.many, Rule.run]
  refine Option.eq_none_iff_forall_ne_some.mpr fun outcome hrun => ?_
  obtain ⟨count, -, hrounds⟩ := Rule.exists_rounds_of_runTimes (fun _ _ => rfl) hrun
  refine hrounds.false_of_endless fun position hposition => ?_
  -- there is always another end behind an end
  have hend : ((Lexer.ofSource source).nth position).kind = .sourceEnd :=
    (hkind position).mpr (by omega)
  exact ⟨_, Line.run_atom_eq_success_iff.mpr ⟨hend, rfl, rfl⟩, rfl, Nat.lt_succ_self position⟩

/-- A repetition in a repetition, in a context that holds a node and an error, and a repetition of
    the end behind all words. -/
theorem comesToEnd_apply_nested :
    let source := "A B\nC"
    let words : Rule := .many (.all [.many (.atom .word), .maybe (.atom .linebreak)])
    let context : Context :=
      { Context.ofSource source with
        position := 1, nodes := [.root []], errors := [⟨.invalidNumber, .start⟩] }
    tokensLeft source 1 = 3 ∧ context.ComesToEnd source words ∧
      context.ComesToEnd source Line.document ∧ tokensLeft source 4 = 0 ∧
      ∀ budget, (Rule.many (.atom .sourceEnd)).run (.ofTokens (Lexer.ofSource source).nth) budget
        4 = none := by
  intro source words context
  have hreads : context.Reads source :=
    ⟨(reads_ofSource source).holds, (reads_ofSource source).enough⟩
  have hbehind : { context with position := 4 }.Reads source := ⟨hreads.holds, hreads.enough⟩
  have hleft : tokensLeft source 4 = 0 := by decide +kernel
  have hinner : (Rule.all [.many (.atom .word), .maybe (.atom .linebreak)]).SparesEnd
      (Lexer.ofSource source).nth := by
    refine Rule.sparesEnd_all ?_
    simp only [List.forall_mem_cons, List.not_mem_nil, false_implies, implies_true, and_true]
    exact ⟨Rule.sparesEnd_times (Rule.sparesEnd_atom (by decide)),
      Rule.sparesEnd_times (Rule.sparesEnd_atom (by decide))⟩
  have hwords : words.RepeatsInside (Lexer.ofSource source).nth :=
    (Rule.sparesEnd_times hinner).repeatsInside
  obtain ⟨hcome, hdocument, -⟩ := comesToEnd_apply hreads
  obtain ⟨-, -, hendless⟩ := comesToEnd_apply hbehind
  exact ⟨by decide +kernel, hcome words hwords, hdocument, hleft, hendless hleft⟩

end Context

end LC3
