import LC3.Proofs.Termination

namespace LC3

/-!
# Budgets

Repetitions without an upper bound have a budget of rounds, and a rule is abandoned when it is used
up. That is only a way to find out that the rule would never stop. From some place on all tokens of
a source are the same, and what a rule does at one such place it does at all of them: a round that
consumes something there is followed by another, and so on. So the rounds that are given are as good
as any number of them.

* `Outcome.shift`, `Rule.run_shift` — rules do the same further on, if the tokens are the same.
* `Rule.run_of_run` — what comes of a rule with some budget comes of it with any that is larger than
  the number of tokens that differ.
* `Lexer.exists_settled` — from some place on all tokens of a source are the same.
* `Context.apply_eq_endlessRule_iff` — a rule is abandoned exactly if it never stops.
-/

/-! ### Further on -/

/-- The same outcome so many tokens further on. -/
def Outcome.shift (outcome : Outcome) (count : Nat) : Outcome :=
  { outcome with position := outcome.position + count }

namespace Outcome

variable {outcome : Outcome} {start count : Nat}

theorem rewind_shift :
    (outcome.shift count).rewind (start + count) = (outcome.rewind start).shift count := by
  obtain ⟨verdict, position, nodes, errors⟩ := outcome
  cases verdict <;> rfl

theorem rewindRejected_shift :
    (outcome.shift count).rewindRejected (start + count) =
      (outcome.rewindRejected start).shift count := by
  obtain ⟨verdict, position, nodes, errors⟩ := outcome
  cases verdict <;> rfl

theorem gather_shift : (outcome.shift count).gather = outcome.gather.shift count := by
  obtain ⟨verdict, position, nodes, errors⟩ := outcome
  cases verdict with
  | matched => cases nodes <;> rfl
  | _ => rfl

theorem insist_shift {expected : String} {found : Token} :
    (outcome.shift count).insist expected found = (outcome.insist expected found).shift count := by
  obtain ⟨verdict, position, nodes, errors⟩ := outcome
  cases verdict <;> rfl

end Outcome

namespace Rule

variable {tokens : Nat → Token} {rule : Rule} {rules : List Rule}
  {budget start count last : Nat} {outcome : Outcome}

/-- A decision about tokens that are the same has the same outcome further on. -/
private theorem shift_decision {decision : Decision}
    (hsame : ∀ i, last ≤ i → tokens (i + count) = tokens i) (hstart : last ≤ start) :
    decision.outcome tokens (start + count) = (decision.outcome tokens start).shift count := by
  cases decision with
  | reject => rfl
  | accept taken nodes =>
    show Outcome.success (start + count + taken) nodes = .success (start + taken + count) nodes
    rw [Nat.add_right_comm]
  | fail skipped error =>
    have hfound : tokens (start + count + skipped) = tokens (start + skipped) := by
      rw [Nat.add_right_comm]
      exact hsame _ (Nat.le_add_right_of_le hstart)
    show (⟨.failed, start + count + skipped, [], [⟨error, _⟩]⟩ : Outcome) =
      ⟨.failed, start + skipped + count, [], [⟨error, _⟩]⟩
    rw [hfound, Nat.add_right_comm]

/-- Tokens that are the same are skipped up to the same one. -/
private theorem shift_skipPast {sync : TokenKind} {position : Nat}
    (hsame : ∀ i, last ≤ i → tokens (i + count) = tokens i) (hstart : last ≤ start)
    (h : skipPast (.ofTokens tokens) sync budget start = some position) :
    skipPast (.ofTokens tokens) sync budget (start + count) = some (position + count) := by
  induction budget generalizing start with
  | zero => cases h
  | succ budget ih =>
    rw [skipPast_succ] at h ⊢
    rw [hsame start hstart]
    split at h
    case isTrue hend =>
      obtain rfl := Option.some.inj h
      rw [if_pos hend]
    case isFalse hend =>
      rw [if_neg hend]
      split at h
      case isTrue hsync =>
        -- the token that is looked for is found, and else the search goes on
        obtain rfl := Option.some.inj h
        rw [if_pos hsync, Nat.add_right_comm]
      case isFalse hsync =>
        rw [if_neg hsync, Nat.add_right_comm]
        exact ih (Nat.le_succ_of_le hstart) h

/-- Rounds do the same further on if a single round does. -/
private theorem shift_runTimes {step : Nat → Option Outcome}
    {exhausted : Nat → Nat → Option Outcome} {limit needed : Nat}
    (hstep : ∀ start outcome, last ≤ start → step start = some outcome →
      start ≤ outcome.position ∧ step (start + count) = some (outcome.shift count))
    (hexhausted : ∀ needed start outcome, exhausted needed start = some outcome →
      exhausted needed (start + count) = some (outcome.shift count)) (hstart : last ≤ start)
    (h : runTimes step exhausted limit needed start = some outcome) :
    runTimes step exhausted limit needed (start + count) = some (outcome.shift count) := by
  induction limit generalizing needed start outcome with
  | zero => exact hexhausted _ _ _ h
  | succ limit ih =>
    obtain ⟨first, hfirst, hcases⟩ := runTimes_succ_eq_some_iff.mp h
    obtain ⟨hforward, hshift⟩ := hstep start first hstart hfirst
    refine runTimes_succ_eq_some_iff.mpr ⟨first.shift count, hshift, ?_⟩
    rcases hcases with ⟨hrejected, rfl⟩ | ⟨hfailed, rfl⟩ | ⟨hmatched, rest, rfl, hrest⟩
    · exact .inl ⟨hrejected, rfl⟩
    · exact .inr (.inl ⟨hfailed, rfl⟩)
    · refine .inr (.inr ⟨hmatched, rest.shift count, Outcome.rewindRejected_shift.symm, ?_⟩)
      have hsame : (first.shift count).position = start + count ↔ first.position = start :=
        Nat.add_right_cancel_iff
      rw [if_congr hsame rfl rfl]
      split at hrest
      case isTrue hposition =>
        -- a round that consumes nothing is the last one in both places
        rw [if_pos hposition, hrest]
        rfl
      case isFalse hposition =>
        rw [if_neg hposition]
        exact ih (Nat.le_trans hstart hforward) hrest

/-- Sequences do the same further on if their rules do. -/
private theorem shift_runAll
    (hrules : ∀ rule ∈ rules, ∀ {start outcome}, last ≤ start →
      rule.run (.ofTokens tokens) budget start = some outcome →
        rule.run (.ofTokens tokens) budget (start + count) = some (outcome.shift count))
    (hstart : last ≤ start) (h : runAll (.ofTokens tokens) budget rules start = some outcome) :
    runAll (.ofTokens tokens) budget rules (start + count) = some (outcome.shift count) := by
  induction rules generalizing start outcome with
  | nil =>
    rw [runAll] at h ⊢
    obtain rfl := Option.some.inj h
    rfl
  | cons rule rules ih =>
    obtain ⟨hrule, hrules⟩ := List.forall_mem_cons.mp hrules
    obtain ⟨first, hfirst, hcases⟩ := runAll_cons_eq_some_iff.mp h
    refine runAll_cons_eq_some_iff.mpr ⟨first.shift count, hrule hstart hfirst, ?_⟩
    rcases hcases with ⟨hmatched, rest, hrest, rfl⟩ | ⟨hother, rfl⟩
    · have hbehind := Nat.le_trans hstart (honors_run hfirst).forward
      exact .inl ⟨hmatched, rest.shift count, ih hrules hbehind hrest, Outcome.rewind_shift.symm⟩
    · exact .inr ⟨hother, Outcome.rewind_shift.symm⟩

/-- Alternatives do the same further on if they do so one by one. -/
private theorem shift_runAny
    (hrules : ∀ rule ∈ rules, ∀ {start outcome}, last ≤ start →
      rule.run (.ofTokens tokens) budget start = some outcome →
        rule.run (.ofTokens tokens) budget (start + count) = some (outcome.shift count))
    (hstart : last ≤ start) (h : runAny (.ofTokens tokens) budget rules start = some outcome) :
    runAny (.ofTokens tokens) budget rules (start + count) = some (outcome.shift count) := by
  induction rules generalizing outcome with
  | nil =>
    rw [runAny] at h ⊢
    obtain rfl := Option.some.inj h
    rfl
  | cons rule rules ih =>
    obtain ⟨hrule, hrules⟩ := List.forall_mem_cons.mp hrules
    obtain ⟨first, hfirst, hcases⟩ := runAny_cons_eq_some_iff.mp h
    refine runAny_cons_eq_some_iff.mpr ⟨first.shift count, hrule hstart hfirst, ?_⟩
    rcases hcases with ⟨hrejected, rest, hrest, rfl⟩ | ⟨hother, rfl⟩
    · exact .inl ⟨hrejected, rest.shift count, ih hrules hrest, rfl⟩
    · exact .inr ⟨hother, rfl⟩

/-- **Rules do the same further on**, where the tokens are the same from there on. -/
theorem run_shift (hsame : ∀ i, last ≤ i → tokens (i + count) = tokens i) (hstart : last ≤ start)
    (h : rule.run (.ofTokens tokens) budget start = some outcome) :
    rule.run (.ofTokens tokens) budget (start + count) = some (outcome.shift count) := by
  induction rule using induct generalizing start outcome with
  | primitive expectation decide =>
    rw [run_primitive] at h ⊢
    obtain rfl := Option.some.inj h
    -- a primitive looks at two tokens, both of which are the same
    have hsecond : tokens (start + count + 1) = tokens (start + 1) := by
      rw [Nat.add_right_comm]
      exact hsame _ (Nat.le_succ_of_le hstart)
    rw [hsame start hstart, hsecond, shift_decision hsame hstart]
  | all rules ih =>
    rw [run] at h ⊢
    exact shift_runAll ih hstart h
  | any rules ih =>
    rw [run] at h ⊢
    exact shift_runAny ih hstart h
  | times rule least most? ih =>
    have hstep : ∀ start outcome, last ≤ start →
        rule.run (.ofTokens tokens) budget start = some outcome → start ≤ outcome.position ∧
          rule.run (.ofTokens tokens) budget (start + count) = some (outcome.shift count) :=
      fun start outcome hstart hrun => ⟨(honors_run hrun).forward, ih hstart hrun⟩
    -- without a limit the rounds never run out, and with one they end in the same way
    cases most? with
    | none =>
      rw [run] at h ⊢
      refine shift_runTimes hstep ?_ hstart h
      intro needed start outcome h
      cases h
    | some most =>
      rw [run] at h ⊢
      refine shift_runTimes hstep ?_ hstart h
      intro needed start outcome h
      obtain rfl := Option.some.inj h
      rfl
  | commit rule ih =>
    rw [run_commit] at h ⊢
    obtain ⟨first, hfirst, rfl⟩ := Option.map_eq_some_iff.mp h
    have hfound : tokens (first.shift count).position = tokens first.position :=
      hsame _ (Nat.le_trans hstart (honors_run hfirst).forward)
    rw [ih hstart hfirst, Option.map_some, hfound, Outcome.insist_shift]
  | subtree rule ih =>
    rw [run_subtree] at h ⊢
    obtain ⟨first, hfirst, rfl⟩ := Option.map_eq_some_iff.mp h
    rw [ih hstart hfirst, Option.map_some, Outcome.gather_shift]
  | recover rule sync ih =>
    obtain ⟨first, hfirst, hcases⟩ := run_recover_eq_some_iff.mp h
    refine run_recover_eq_some_iff.mpr ⟨first.shift count, ih hstart hfirst, ?_⟩
    rcases hcases with ⟨hfailed, position, hposition, rfl⟩ | ⟨hother, rfl⟩
    · exact .inl ⟨hfailed, position + count, shift_skipPast hsame hstart hposition, rfl⟩
    · exact .inr ⟨hother, rfl⟩
  | expecting rule expectation ih =>
    rw [run] at h ⊢
    exact ih hstart h

/-! ### Rounds that are enough -/

/-- Rounds of a rule that come to an end have done so before the tokens are all the same, or at the
    first place where they are. -/
theorem Rounds.le_of_settled (hsettled : ∀ i, last ≤ i → tokens i = tokens last)
    (h : Rounds (rule.run (.ofTokens tokens) budget) start count) : count ≤ last - start + 1 := by
  induction h with
  | last => exact Nat.le_add_left 1 _
  | @next start count first hfirst hmatched hmoved hrest ih =>
    have hforward : start < first.position :=
      Nat.lt_of_le_of_ne (honors_run hfirst).forward (Ne.symm hmoved)
    have hinside : start < last := by
      by_contra hbehind
      -- the round would be repeated for ever
      refine hrest.false_of_endless fun position hposition => ?_
      obtain ⟨count, rfl⟩ :=
        Nat.exists_eq_add_of_le (Nat.le_trans (Nat.le_of_lt hforward) hposition)
      have hsame : ∀ i, start ≤ i → tokens (i + count) = tokens i := by
        intro i hi
        rw [hsettled i (by omega), hsettled (i + count) (by omega)]
      exact ⟨_, run_shift hsame (Nat.le_refl _) hfirst, hmatched, Nat.add_lt_add_right hforward _⟩
    omega

/-- A repetition that returns does so with every number of rounds that is large enough. -/
theorem runTimes_of_runTimes {limit limit' needed : Nat}
    (hsettled : ∀ i, last ≤ i → tokens i = tokens last) (hlimit : last < limit)
    (h : runTimes (rule.run (.ofTokens tokens) budget) (fun _ _ => none) limit' needed start =
      some outcome) :
    runTimes (rule.run (.ofTokens tokens) budget) (fun _ _ => none) limit needed start =
      some outcome := by
  obtain ⟨count, -, hrounds⟩ := exists_rounds_of_runTimes (fun _ _ => rfl) h
  have hcount := hrounds.le_of_settled hsettled
  obtain ⟨outcome', h'⟩ : ∃ outcome', runTimes (rule.run (.ofTokens tokens) budget)
      (fun _ _ => none) limit needed start = some outcome' :=
    hrounds.exists_runTimes (by omega)
  -- with all the rounds of both it comes to the same
  have hmore : ∀ {limit outcome} more, runTimes (rule.run (.ofTokens tokens) budget)
      (fun _ _ => none) limit needed start = some outcome →
        runTimes (rule.run (.ofTokens tokens) budget) (fun _ _ => none) (limit + more) needed
          start = some outcome :=
    fun more => runTimes_mono (fun _ _ => id) fun _ _ _ hnone => by cases hnone
  have hboth := hmore limit h
  rw [Nat.add_comm limit' limit, hmore limit' h'] at hboth
  rw [h', Option.some.inj hboth]

/-- What comes of a rule does not depend on the budget. -/
theorem run_unique {budget' : Nat} {outcome' : Outcome}
    (h : rule.run (.ofTokens tokens) budget start = some outcome)
    (h' : rule.run (.ofTokens tokens) budget' start = some outcome') : outcome = outcome' := by
  rcases Nat.le_total budget budget' with hle | hle
  · exact Option.some.inj ((run_le_budget hle h).symm.trans h')
  · exact Option.some.inj (h.symm.trans (run_le_budget hle h'))

/-- **A budget is as good as any other** that is larger than the number of tokens in front of the
    place from which on they are all the same, and all end the source. -/
theorem run_of_run {budget' : Nat} (hsettled : ∀ i, last ≤ i → tokens i = tokens last)
    (hend : (tokens last).kind = .sourceEnd) (hbudget : last < budget)
    (h : rule.run (.ofTokens tokens) budget' start = some outcome) :
    rule.run (.ofTokens tokens) budget start = some outcome := by
  have hlast : ∀ i, last ≤ i → (tokens i).kind = .sourceEnd := by
    intro i hi
    rw [hsettled i hi, hend]
  induction rule using induct generalizing start outcome with
  | primitive expectation decide =>
    -- a primitive does not look at the budget
    rw [run_primitive] at h ⊢
    exact h
  | all rules ih =>
    rw [run] at h ⊢
    exact runAll_mono ih h
  | any rules ih =>
    rw [run] at h ⊢
    exact runAny_mono ih h
  | times rule least most? ih =>
    cases most? with
    | none =>
      rw [run] at h ⊢
      -- rounds inside are done with the other budget, and as many are enough
      have hrounds : runTimes (rule.run (.ofTokens tokens) budget) (fun _ _ => none)
          (budget' + 0) least start = some outcome :=
        runTimes_mono (fun _ _ => ih) (fun _ _ _ hnone => by cases hnone) h
      exact runTimes_of_runTimes hsettled hbudget hrounds
    | some most =>
      rw [run] at h ⊢
      show runTimes _ _ (most + 0) _ _ = _
      refine runTimes_mono (fun _ _ => ih) ?_ h
      intro needed start outcome h
      rw [runTimes]
      exact h
  | commit rule ih =>
    rw [run_commit] at h ⊢
    obtain ⟨first, hfirst, rfl⟩ := Option.map_eq_some_iff.mp h
    rw [ih hfirst]
    rfl
  | subtree rule ih =>
    rw [run_subtree] at h ⊢
    obtain ⟨first, hfirst, rfl⟩ := Option.map_eq_some_iff.mp h
    rw [ih hfirst]
    rfl
  | recover rule sync ih =>
    obtain ⟨first, hfirst, hcases⟩ := run_recover_eq_some_iff.mp h
    rcases hcases with ⟨hfailed, -⟩ | ⟨hother, hsame⟩
    · -- an end is found within the budget, as there are ends from some token on
      obtain ⟨position, hposition⟩ : ∃ position,
          skipPast (.ofTokens tokens) sync budget start = some position :=
        exists_skipPast hlast (by omega)
      have hrun : (recover rule sync).run (.ofTokens tokens) budget start =
          some ⟨.matched, position, [], first.errors⟩ :=
        run_recover_eq_some_iff.mpr ⟨first, ih hfirst, .inl ⟨hfailed, position, hposition, rfl⟩⟩
      rw [hrun, run_unique hrun h]
    · exact run_recover_eq_some_iff.mpr ⟨first, ih hfirst, .inr ⟨hother, hsame⟩⟩
  | expecting rule expectation ih =>
    rw [run] at h ⊢
    exact ih h

/-- All budgets that are large enough are alike. -/
theorem run_congr_budget {budget' : Nat} (hsettled : ∀ i, last ≤ i → tokens i = tokens last)
    (hend : (tokens last).kind = .sourceEnd) (hbudget : last < budget) (hbudget' : last < budget') :
    rule.run (.ofTokens tokens) budget start = rule.run (.ofTokens tokens) budget' start :=
  Option.ext fun _ =>
    ⟨run_of_run hsettled hend hbudget', run_of_run hsettled hend hbudget⟩

end Rule

/-! ### The end of a source -/

/-- From some place on all tokens of a lexer are the same, and end the source. Those in front of it
    take a character each, and so does a NUL. -/
theorem Lexer.exists_settled (lexer : Lexer) :
    ∃ last ≤ lexer.rest.length, (lexer.nth last).kind = .sourceEnd ∧
      ∀ i, last ≤ i → lexer.nth i = lexer.nth last := by
  induction hlength : lexer.rest.length using Nat.strong_induction_on generalizing lexer with
  | _ length ih =>
    cases hfinished : lexer.finished with
    | true =>
      refine ⟨0, Nat.zero_le _, kind_nth_of_finished hfinished 0, fun i _ => ?_⟩
      rw [nth_of_finished hfinished, nth_of_finished hfinished]
    | false =>
      have hfinds := finds_next hfinished
      cases hnext : lexer.next with
      | mk token behind =>
        have hzero : lexer.nth 0 = token := by rw [nth, hnext]
        have hsucc : ∀ n, lexer.nth (n + 1) = behind.nth n := by
          intro n
          rw [nth, hnext]
        rw [hnext] at hfinds
        cases hfinds with
        | @finish gap rest location hrest hgap hend hlocation =>
          have hends := fun n => (hsucc n).trans (nth_of_finished rfl n)
          cases rest with
          | nil =>
            -- the text is used up
            refine ⟨0, Nat.zero_le _, by rw [hzero]; rfl, fun i _ => ?_⟩
            cases i with
            | zero => rfl
            | succ i =>
              rw [hends, hzero]
              show endToken (location.shifted 0) = endToken location
              rw [Location.shifted_zero]
          | cons c text =>
            -- a NUL ends the source at its place, and behind it
            refine ⟨1, ?_, by rw [hends]; rfl, fun i hi => ?_⟩
            · rw [← hlength, hrest, List.length_append, List.length_cons]
              omega
            · obtain ⟨i, rfl⟩ := Nat.exists_eq_add_of_le' hi
              rw [hends, hends]
        | @token kind gap raw text rest location hrest hgap hspelled hlocation =>
          have hraw := List.length_pos_iff.mpr hspelled.ne_nil
          have hshorter : rest.length < length := by
            rw [← hlength, hrest, List.length_append, List.length_append]
            omega
          obtain ⟨last, hlast, hend, hsettled⟩ := ih rest.length hshorter
            ⟨rest, if kind = .linebreak then location.nextLine
              else location.shifted (Text.byteLength raw), false⟩ rfl
          refine ⟨last + 1, Nat.le_trans (Nat.succ_le_succ hlast) hshorter, ?_, fun i hi => ?_⟩
          · rw [hsucc]
            exact hend
          · obtain ⟨i, rfl⟩ := Nat.exists_eq_add_of_le' (Nat.le_trans (Nat.le_add_left 1 last) hi)
            rw [hsucc, hsucc]
            exact hsettled i (Nat.le_of_succ_le_succ hi)

/-! ### Contexts of a source -/

namespace Context

variable {context : Context} {source : String} {rule : Rule}

/-- **Rules are abandoned exactly if they never stop**: in a context of a source a rule returns if
    some number of rounds is enough for each of its repetitions, and then it returns what comes of
    it with any such number. -/
theorem apply_eq_endlessRule_iff (h : context.Reads source) :
    (context.apply rule = .error .endlessRule ↔
      ∀ budget, rule.run (.ofTokens (Lexer.ofSource source).nth) budget context.position = none) ∧
    ∀ budget outcome,
      rule.run (.ofTokens (Lexer.ofSource source).nth) budget context.position = some outcome →
        ∃ behind, context.apply rule = .ok (outcome.verdict, behind) ∧
          After (Lexer.ofSource source).nth context outcome behind := by
  obtain ⟨last, hlength, hend, hsettled⟩ := (Lexer.ofSource source).exists_settled
  have hbudget : last < context.budget := Nat.lt_of_le_of_lt hlength h.enough
  have hreturns : ∀ budget outcome,
      rule.run (.ofTokens (Lexer.ofSource source).nth) budget context.position = some outcome →
        ∃ behind, context.apply rule = .ok (outcome.verdict, behind) ∧
          After (Lexer.ofSource source).nth context outcome behind := fun budget outcome hrun =>
    exists_apply_of_run h.holds (Rule.run_of_run hsettled hend hbudget hrun)
  refine ⟨⟨fun hendless budget => ?_, fun hnone => ?_⟩, hreturns⟩
  · -- what some budget returned would be what the rule returns
    refine Option.eq_none_iff_forall_ne_some.mpr fun outcome hrun => ?_
    obtain ⟨behind, happly, -⟩ := hreturns budget outcome hrun
    rw [happly] at hendless
    cases hendless
  · exact apply_of_run_eq_none h.holds (hnone context.budget)

end Context

end LC3
