import LC3.Proofs.LineExtent

namespace LC3

/-!
# Lines read in lockstep

A rule decides by the kinds and texts of tokens and not by their places, and no rule of a line looks
behind the token that ends it. So the same line at two places, of one source or of two, is read
step by step in the same way, with the same errors.

* `Token.Same` — tokens that differ in their places only.
* `OverlooksPlaces`, `Rule.Overlooks` — primitives and rules that do not look at places.
* `Outcome.Mirrors` — outcomes on two lines that come to the same.
* `Rule.Avoids.inStep` — rules that stay on the line have such outcomes.
* `Line.complaints_run_line` — the rule of a line finds the same errors.
-/

open Grammar

/-- Two tokens that differ in their places only. -/
structure Token.Same (token other : Token) : Prop where
  kind : other.kind = token.kind
  text : other.text = token.text

instance (token other : Token) : Decidable (token.Same other) :=
  decidable_of_iff (other.kind = token.kind ∧ other.text = token.text)
    ⟨fun h => ⟨h.1, h.2⟩, fun h => ⟨h.kind, h.text⟩⟩

theorem Token.Same.refl (token : Token) : token.Same token :=
  ⟨rfl, rfl⟩

theorem Token.Same.symm {token other : Token} (h : token.Same other) : other.Same token :=
  ⟨h.kind.symm, h.text.symm⟩

/-- The same token at another place. -/
theorem Token.Same.exists_eq {token other : Token} (h : token.Same other) :
    ∃ location, other = { token with location } := by
  obtain ⟨kind, text, location⟩ := other
  obtain ⟨rfl, rfl⟩ := h
  exact ⟨location, rfl⟩

/-! ### Decisions -/

/-- A decision without the nodes that it adds. -/
def Decision.bare : Decision → Decision
  | accept taken _ => accept taken []
  | decision => decision

/-- Whether a primitive makes the same of tokens wherever they are, and does not look behind a token
    that ends a line. -/
def OverlooksPlaces (decide : Token → Token → Decision) : Prop :=
  ∀ first second first' second', first.Same first' → (¬ EndsLine first → second.Same second') →
    (decide first' second').bare = (decide first second).bare

namespace Rule

mutual

/-- Whether all primitives that a rule is made of overlook places. -/
def Overlooks : Rule → Prop
  | primitive _ decide => OverlooksPlaces decide
  | all rules => OverlookAll rules
  | any rules => OverlookAll rules
  | times rule _ _ => rule.Overlooks
  | commit rule => rule.Overlooks
  | subtree rule => rule.Overlooks
  | recover rule _ => rule.Overlooks
  | expecting rule _ => rule.Overlooks

/-- Whether all primitives that some rules are made of overlook places. -/
def OverlookAll : List Rule → Prop
  | [] => True
  | rule :: rules => rule.Overlooks ∧ OverlookAll rules

end

/-- The rules of a list overlook places if each of them does. -/
theorem overlookAll_iff {rules : List Rule} :
    OverlookAll rules ↔ ∀ rule ∈ rules, rule.Overlooks := by
  induction rules with
  | nil => simp [OverlookAll]
  | cons rule rules ih => simp [OverlookAll, ih]

end Rule

/-! ### Outcomes -/

/-- What is wrong, without the places. -/
def Outcome.complaints (outcome : Outcome) : List SyntaxError :=
  outcome.errors.map SyntaxFault.error

/-- Two outcomes on lines that start at two places that come to the same: the rules end in the same
    way, as far behind the start of the line and with the same errors. -/
structure Outcome.Mirrors (start start' : Nat) (outcome outcome' : Outcome) : Prop where
  verdict : outcome'.verdict = outcome.verdict
  position : start + outcome'.position = start' + outcome.position
  complaints : outcome'.complaints = outcome.complaints

namespace Outcome

variable {start start' place place' : Nat} {outcome outcome' first first' rest rest' : Outcome}

/-- Outcomes with the same errors, at places that correspond. -/
theorem Mirrors.replace (h : outcome.Mirrors start start' outcome')
    (hplace : start + place' = start' + place) {verdict : Verdict} {nodes nodes' : List Node} :
    Mirrors start start' ⟨verdict, place, nodes, outcome.errors⟩
      ⟨verdict, place', nodes', outcome'.errors⟩ :=
  ⟨rfl, hplace, h.complaints⟩

/-- Outcomes without errors mirror each other if they stop in the same place. -/
theorem mirrors_silent (hplace : start + place' = start' + place) {verdict : Verdict}
    {nodes nodes' : List Node} :
    Mirrors start start' ⟨verdict, place, nodes, []⟩ ⟨verdict, place', nodes', []⟩ :=
  ⟨rfl, hplace, rfl⟩

theorem Mirrors.rewind (h : outcome.Mirrors start start' outcome')
    (hplace : start + place' = start' + place) :
    (outcome.rewind place).Mirrors start start' (outcome'.rewind place') := by
  unfold Outcome.rewind
  rw [h.verdict]
  split
  · exact h
  · exact h.replace hplace

theorem Mirrors.rewindRejected (h : outcome.Mirrors start start' outcome')
    (hplace : start + place' = start' + place) :
    (outcome.rewindRejected place).Mirrors start start' (outcome'.rewindRejected place') := by
  unfold Outcome.rewindRejected
  rw [h.verdict]
  split
  · exact h.replace hplace
  · exact h

/-- Repetitions that stop after the same rounds mirror each other. -/
theorem Mirrors.settle (h : outcome.Mirrors start start' outcome')
    (hplace : start + place' = start' + place) {needed : Nat} :
    (Outcome.settle needed place outcome.errors).Mirrors start start'
      (.settle needed place' outcome'.errors) :=
  h.replace hplace

/-- Gathering the nodes changes nothing about the errors. -/
theorem Mirrors.gather (h : outcome.Mirrors start start' outcome') :
    outcome.gather.Mirrors start start' outcome'.gather := by
  have hbare : ∀ outcome : Outcome,
      ∃ nodes, outcome.gather = ⟨outcome.verdict, outcome.position, nodes, outcome.errors⟩ := by
    intro outcome
    unfold Outcome.gather
    split <;> exact ⟨_, rfl⟩
  obtain ⟨nodes, hgather⟩ := hbare outcome
  obtain ⟨nodes', hgather'⟩ := hbare outcome'
  rw [hgather, hgather', h.verdict]
  exact h.replace h.position

/-- A rejection becomes a failure, with an error that names the kind of a token. -/
theorem Mirrors.insist (h : outcome.Mirrors start start' outcome') {expected : String}
    {found found' : Token} (hfound : outcome.verdict = .rejected → found'.kind = found.kind) :
    (outcome.insist expected found).Mirrors start start' (outcome'.insist expected found') := by
  unfold Outcome.insist
  rw [h.verdict]
  split
  case h_1 hrejected =>
    refine ⟨rfl, h.position, ?_⟩
    have hcomplaints := h.complaints
    simp only [Outcome.complaints] at hcomplaints
    simp [Outcome.complaints, hcomplaints, hfound hrejected]
  case h_2 => exact h

/-- Errors of an earlier outcome stay. -/
theorem Mirrors.errors_append (hrest : rest.Mirrors start start' rest')
    (hfirst : first.Mirrors start start' first') {nodes nodes' : List Node} :
    Mirrors start start' ⟨rest.verdict, rest.position, nodes, first.errors ++ rest.errors⟩
      ⟨rest'.verdict, rest'.position, nodes', first'.errors ++ rest'.errors⟩ := by
  refine ⟨hrest.verdict, hrest.position, ?_⟩
  have hcomplaints := hfirst.complaints
  have hcomplaints' := hrest.complaints
  simp only [Outcome.complaints] at hcomplaints hcomplaints'
  simp [Outcome.complaints, hcomplaints, hcomplaints']

/-- Outcomes that follow each other mirror those that follow each other on the other line. -/
theorem Mirrors.append (hfirst : first.Mirrors start start' first')
    (hrest : rest.Mirrors start start' rest') :
    (first.append rest).Mirrors start start' (first'.append rest') :=
  hrest.errors_append hfirst

end Outcome

/-! ### Rules -/

/-- Two places of two sequences of tokens from which on the tokens are the same, up to the one that
    ends the line. -/
structure SameLine (tokens tokens' : Nat → Token) (start start' length : Nat) : Prop where
  same : ∀ i ≤ length, (tokens (start + i)).Same (tokens' (start' + i))
  ends : EndsLine (tokens (start + length))

/-- Two computations on two lines run in step if the second mirrors the first, wherever on the line
    they start. -/
def InStep (start start' length : Nat) (run run' : Nat → Option Outcome) : Prop :=
  ∀ i ≤ length, ∀ outcome, run (start + i) = some outcome →
    ∃ outcome', run' (start' + i) = some outcome' ∧ outcome.Mirrors start start' outcome'

/-- A computation stays on a line: wherever it starts there, it ends behind and still in front of
    what follows the line. -/
def StaysOn (start length : Nat) (run : Nat → Option Outcome) : Prop :=
  ∀ i ≤ length, ∀ outcome, run (start + i) = some outcome →
    ∃ j, i ≤ j ∧ j ≤ length ∧ outcome.position = start + j

namespace Rule

variable {tokens tokens' : Nat → Token} {budget budget' start start' length : Nat}

/-- What a primitive decides in one place it decides in the other. -/
private theorem inStep_primitive (hline : SameLine tokens tokens' start start' length)
    {expectation : String} {decide : Token → Token → Decision} (h : OverlooksPlaces decide) :
    InStep start start' length ((primitive expectation decide).run (.ofTokens tokens) budget)
      ((primitive expectation decide).run (.ofTokens tokens') budget') := by
  intro i hi outcome hrun
  rw [run_primitive] at hrun
  obtain rfl := Option.some.inj hrun
  refine ⟨_, run_primitive, ?_⟩
  have hbare : (decide (tokens' (start' + i)) (tokens' (start' + i + 1))).bare =
      (decide (tokens (start + i)) (tokens (start + i + 1))).bare := by
    refine h _ _ _ _ (hline.same i hi) fun hinside => ?_
    -- a token that does not end the line has another one of the line behind it
    have hlt : i < length := by
      refine Nat.lt_of_le_of_ne hi fun heq => hinside ?_
      rw [heq]
      exact hline.ends
    exact hline.same (i + 1) hlt
  -- places apart, the decision is the same: to reject, to accept as much or to fail alike
  cases hfirst : decide (tokens (start + i)) (tokens (start + i + 1)) <;>
    cases hsecond : decide (tokens' (start' + i)) (tokens' (start' + i + 1)) <;>
    rw [hfirst, hsecond] at hbare <;>
    simp only [Decision.bare, Decision.accept.injEq, Decision.fail.injEq, reduceCtorEq] at hbare
  case reject.reject => exact Outcome.mirrors_silent (by omega)
  case accept.accept => exact Outcome.mirrors_silent (by omega)
  case fail.fail =>
    obtain ⟨rfl, rfl⟩ := hbare
    exact ⟨rfl, by simp only [Decision.outcome]; omega, rfl⟩

/-- An empty sequence runs in step. -/
private theorem inStep_runAll_nil :
    InStep start start' length (runAll (.ofTokens tokens) budget [])
      (runAll (.ofTokens tokens') budget' []) := by
  intro i _ outcome hrun
  rw [runAll] at hrun
  obtain rfl := Option.some.inj hrun
  exact ⟨.idle (start' + i), by rw [runAll]; rfl, Outcome.mirrors_silent (by omega)⟩

/-- A sequence runs in step if its first rule does, and the others do where that one ends. -/
private theorem inStep_runAll_cons {rule : Rule} {rules : List Rule}
    (hrule : InStep start start' length (rule.run (.ofTokens tokens) budget)
      (rule.run (.ofTokens tokens') budget'))
    (hrules : ∀ i ≤ length, ∀ first, rule.run (.ofTokens tokens) budget (start + i) = some first →
      ∀ place', start + place' = start' + first.position →
        ∀ rest, runAll (.ofTokens tokens) budget rules first.position = some rest →
          ∃ rest', runAll (.ofTokens tokens') budget' rules place' = some rest' ∧
            rest.Mirrors start start' rest') :
    InStep start start' length (runAll (.ofTokens tokens) budget (rule :: rules))
      (runAll (.ofTokens tokens') budget' (rule :: rules)) := by
  intro i hi outcome hrun
  have hplace : start + (start' + i) = start' + (start + i) := by omega
  obtain ⟨first, hfirst, hcases⟩ := runAll_cons_eq_some_iff.mp hrun
  obtain ⟨first', hfirst', hmirrors⟩ := hrule i hi first hfirst
  rcases hcases with ⟨hverdict, rest, hrest, rfl⟩ | ⟨hverdict, rfl⟩
  · obtain ⟨rest', hrest', hmirrors'⟩ := hrules i hi first hfirst _ hmirrors.position rest hrest
    exact ⟨_, runAll_cons_eq_some_iff.mpr
      ⟨first', hfirst', .inl ⟨hmirrors.verdict.trans hverdict, rest', hrest', rfl⟩⟩,
      (hmirrors.append hmirrors').rewind hplace⟩
  · exact ⟨_, runAll_cons_eq_some_iff.mpr
      ⟨first', hfirst', .inr ⟨by rwa [hmirrors.verdict], rfl⟩⟩, hmirrors.rewind hplace⟩

/-- The first rule of a sequence has to stay on the line for the others to follow it in step. -/
private theorem inStep_runAll_staysOn {rule : Rule} {rules : List Rule}
    (hrule : InStep start start' length (rule.run (.ofTokens tokens) budget)
      (rule.run (.ofTokens tokens') budget'))
    (hstays : StaysOn start length (rule.run (.ofTokens tokens) budget))
    (hrules : InStep start start' length (runAll (.ofTokens tokens) budget rules)
      (runAll (.ofTokens tokens') budget' rules)) :
    InStep start start' length (runAll (.ofTokens tokens) budget (rule :: rules))
      (runAll (.ofTokens tokens') budget' (rule :: rules)) := by
  refine inStep_runAll_cons hrule fun i hi first hfirst place' hplace' rest hrest => ?_
  obtain ⟨j, -, hj, hposition⟩ := hstays i hi first hfirst
  obtain rfl : place' = start' + j := by omega
  rw [hposition] at hrest
  exact hrules j hj rest hrest

/-- A sequence runs in step if all its rules do and stay on the line. -/
private theorem inStep_runAll {rules : List Rule}
    (hrules : ∀ rule ∈ rules, InStep start start' length (rule.run (.ofTokens tokens) budget)
      (rule.run (.ofTokens tokens') budget') ∧
        StaysOn start length (rule.run (.ofTokens tokens) budget)) :
    InStep start start' length (runAll (.ofTokens tokens) budget rules)
      (runAll (.ofTokens tokens') budget' rules) := by
  induction rules with
  | nil => exact inStep_runAll_nil
  | cons rule rules ih =>
    obtain ⟨⟨hrule, hstays⟩, hrules⟩ := List.forall_mem_cons.mp hrules
    exact inStep_runAll_staysOn hrule hstays (ih hrules)

/-- The last rule of a sequence may end behind the line. -/
private theorem inStep_runAll_last {rule : Rule}
    (hrule : InStep start start' length (rule.run (.ofTokens tokens) budget)
      (rule.run (.ofTokens tokens') budget')) :
    InStep start start' length (runAll (.ofTokens tokens) budget [rule])
      (runAll (.ofTokens tokens') budget' [rule]) := by
  refine inStep_runAll_cons hrule fun i hi first hfirst place' hplace' rest hrest => ?_
  rw [runAll] at hrest
  obtain rfl := Option.some.inj hrest
  exact ⟨.idle place', by rw [runAll]; rfl, Outcome.mirrors_silent hplace'⟩

/-- Alternatives run in step if each of them does. -/
private theorem inStep_runAny {rules : List Rule}
    (hrules : ∀ rule ∈ rules, InStep start start' length (rule.run (.ofTokens tokens) budget)
      (rule.run (.ofTokens tokens') budget')) :
    InStep start start' length (runAny (.ofTokens tokens) budget rules)
      (runAny (.ofTokens tokens') budget' rules) := by
  induction rules with
  | nil =>
    intro i _ outcome hrun
    rw [runAny] at hrun
    obtain rfl := Option.some.inj hrun
    exact ⟨.refusal (start' + i), by rw [runAny]; rfl, Outcome.mirrors_silent (by omega)⟩
  | cons rule rules ih =>
    obtain ⟨hrule, hrules⟩ := List.forall_mem_cons.mp hrules
    intro i hi outcome hrun
    obtain ⟨first, hfirst, ⟨hverdict, rest, hrest, rfl⟩ | ⟨hverdict, rfl⟩⟩ :=
      runAny_cons_eq_some_iff.mp hrun
    · -- the first alternative rejects on both lines, and leaves the rest to decide
      obtain ⟨first', hfirst', hmirrors⟩ := hrule i hi first hfirst
      obtain ⟨rest', hrest', hmirrors'⟩ := ih hrules i hi rest hrest
      exact ⟨_, runAny_cons_eq_some_iff.mpr
        ⟨first', hfirst', .inl ⟨hmirrors.verdict.trans hverdict, rest', hrest', rfl⟩⟩,
        hmirrors'.errors_append hmirrors⟩
    · obtain ⟨outcome', hfirst', hmirrors⟩ := hrule i hi outcome hfirst
      exact ⟨outcome', runAny_cons_eq_some_iff.mpr
        ⟨outcome', hfirst', .inr ⟨by rwa [hmirrors.verdict], rfl⟩⟩, hmirrors⟩

/-- Rounds run in step. The second line may allow other rounds than the first one, if there are more
    than tokens left and the first never uses them up. -/
private theorem inStep_runTimes {step step' : Nat → Option Outcome}
    {exhausted exhausted' : Nat → Nat → Option Outcome} {rounds rounds' needed : Nat}
    (hstep : InStep start start' length step step') (hstays : StaysOn start length step)
    (hexhausted : ∀ needed, InStep start start' length (exhausted needed) (exhausted' needed))
    {i : Nat} (hi : i ≤ length)
    (hrounds : rounds' = rounds ∨ (∀ needed place, exhausted needed place = none) ∧
      length - i < rounds') {outcome : Outcome}
    (hrun : runTimes step exhausted rounds needed (start + i) = some outcome) :
    ∃ outcome', runTimes step' exhausted' rounds' needed (start' + i) = some outcome' ∧
      outcome.Mirrors start start' outcome' := by
  have hplace : ∀ i, start + (start' + i) = start' + (start + i) := fun i => by omega
  -- the induction is on the rounds of the first line; only a match leads to another
  induction rounds generalizing i rounds' needed outcome with
  | zero =>
    rcases hrounds with rfl | ⟨hnever, -⟩
    · -- all the rounds of the first line are used up
      exact hexhausted needed i hi outcome hrun
    · cases (hnever needed (start + i)).symm.trans hrun
  | succ rounds ih =>
    obtain ⟨rounds', rfl⟩ : ∃ left, rounds' = left + 1 :=
      Nat.exists_eq_add_one_of_ne_zero (by omega)
    obtain ⟨first, hfirst, hcases⟩ := runTimes_succ_eq_some_iff.mp hrun
    obtain ⟨first', hfirst', hmirrors⟩ := hstep i hi first hfirst
    obtain ⟨j, hij, hj, hposition⟩ := hstays i hi first hfirst
    have hposition' : first'.position = start' + j := by
      have := hmirrors.position
      omega
    rcases hcases with ⟨hverdict, rfl⟩ | ⟨hverdict, rfl⟩ | ⟨hverdict, rest, rfl, hrest⟩
    · -- no match: the repetition stops here
      exact ⟨_, runTimes_succ_eq_some_iff.mpr
        ⟨first', hfirst', .inl ⟨hmirrors.verdict.trans hverdict, rfl⟩⟩, hmirrors.settle (hplace i)⟩
    · -- a failure is passed on
      exact ⟨_, runTimes_succ_eq_some_iff.mpr
        ⟨first', hfirst', .inr (.inl ⟨hmirrors.verdict.trans hverdict, rfl⟩)⟩, hmirrors⟩
    · -- a match is followed by another round, unless it has consumed nothing
      have hrest' : ∃ rest', rest.Mirrors start start' rest' ∧
          if first'.position = start' + i then rest' = .settle (needed - 1) (start' + i) []
          else runTimes step' exhausted' rounds' (needed - 1) first'.position = some rest' := by
        by_cases hidle : j = i
        · rw [if_pos (by omega)] at hrest
          refine ⟨.settle (needed - 1) (start' + i) [], ?_, by rw [if_pos (by omega)]⟩
          rw [hrest]
          exact Outcome.mirrors_silent (hplace i)
        · rw [if_neg (by omega), hposition] at hrest
          have hleft : rounds' = rounds ∨ (∀ needed place, exhausted needed place = none) ∧
              length - j < rounds' :=
            hrounds.imp Nat.succ.inj fun h => ⟨h.1, by omega⟩
          obtain ⟨rest', hrun', hmirrors'⟩ := ih hj hleft hrest
          exact ⟨rest', hmirrors', by rwa [if_neg (by omega), hposition']⟩
      obtain ⟨rest', hmirrors', hrest'⟩ := hrest'
      exact ⟨_, runTimes_succ_eq_some_iff.mpr
        ⟨first', hfirst', .inr (.inr ⟨hmirrors.verdict.trans hverdict, rest', rfl, hrest'⟩)⟩,
        (hmirrors.append hmirrors').rewindRejected (hplace i)⟩

/-- A rule runs in step if its nodes are gathered. -/
private theorem inStep_subtree {rule : Rule}
    (h : InStep start start' length (rule.run (.ofTokens tokens) budget)
      (rule.run (.ofTokens tokens') budget')) :
    InStep start start' length (rule.subtree.run (.ofTokens tokens) budget)
      (rule.subtree.run (.ofTokens tokens') budget') := by
  intro i hi outcome hrun
  rw [run_subtree] at hrun
  obtain ⟨first, hfirst, rfl⟩ := Option.map_eq_some_iff.mp hrun
  obtain ⟨first', hfirst', hmirrors⟩ := h i hi first hfirst
  exact ⟨_, by rw [run_subtree, hfirst']; rfl, hmirrors.gather⟩

/-- A rule that must not be rejected finds the same token where it has been. -/
private theorem inStep_commit (hline : SameLine tokens tokens' start start' length) {rule : Rule}
    (h : InStep start start' length (rule.run (.ofTokens tokens) budget)
      (rule.run (.ofTokens tokens') budget')) :
    InStep start start' length (rule.commit.run (.ofTokens tokens) budget)
      (rule.commit.run (.ofTokens tokens') budget') := by
  intro i hi outcome hrun
  rw [run_commit] at hrun
  obtain ⟨first, hfirst, rfl⟩ := Option.map_eq_some_iff.mp hrun
  obtain ⟨first', hfirst', hmirrors⟩ := h i hi first hfirst
  refine ⟨_, by rw [run_commit, hfirst']; rfl, hmirrors.insist fun hrejected => ?_⟩
  -- a rejected rule has consumed nothing
  have hposition := ((honors_run hfirst).rejected hrejected).1
  have hposition' := ((honors_run hfirst').rejected (hmirrors.verdict.trans hrejected)).1
  rw [hposition, hposition']
  exact (hline.same i hi).kind

/-- A rule that consumes no token that ends a line stays on it. -/
theorem Avoids.staysOn {rule : Rule} (h : rule.Avoids EndsLine)
    (hends : EndsLine (tokens (start + length))) (hbudget : length < budget) :
    StaysOn start length (rule.run (.ofTokens tokens) budget) := by
  intro i hi outcome hrun
  obtain ⟨outcome', hrun', hwithin⟩ := h.exists_run hends (Nat.add_le_add_left hi start)
    (show start + length - (start + i) < budget by omega)
  obtain rfl := Option.some.inj (hrun.symm.trans hrun')
  have hforward := hwithin.forward
  have hlimit := hwithin.atMost
  exact ⟨outcome.position - start, by omega, by omega, by omega⟩

/-- **Rules read a line in lockstep.** What a rule that consumes no token that ends a line and does
    not look at places comes to on one line, it comes to on another with the same tokens. -/
theorem Avoids.inStep {rule : Rule} (h : rule.Avoids EndsLine)
    (hline : SameLine tokens tokens' start start' length)
    (hoverlooks : rule.Overlooks) (hbudget : length < budget) (hbudget' : length < budget') :
    InStep start start' length (rule.run (.ofTokens tokens) budget)
      (rule.run (.ofTokens tokens') budget') := by
  -- one case for each way to make a rule; what is read behind something else needs that this stays
  -- on the line
  induction h with
  | primitive => exact inStep_primitive hline hoverlooks
  | all hrules ih =>
    intro i hi outcome hrun
    rw [run] at hrun ⊢
    refine inStep_runAll (fun rule hrule => ⟨?_, ?_⟩) i hi outcome hrun
    · exact ih rule hrule (overlookAll_iff.mp hoverlooks rule hrule)
    · exact (hrules rule hrule).staysOn hline.ends hbudget
  | any _ ih =>
    intro i hi outcome hrun
    rw [run] at hrun ⊢
    exact inStep_runAny (fun rule hrule => ih rule hrule (overlookAll_iff.mp hoverlooks rule hrule))
      i hi outcome hrun
  | @times rule least most? hrule ih =>
    have hstays := hrule.staysOn hline.ends hbudget
    intro i hi outcome hrun
    cases most? with
    | none =>
      -- there are more rounds than tokens on the line, so they are never used up
      rw [run] at hrun ⊢
      refine inStep_runTimes (ih hoverlooks) hstays ?_ hi (.inr ⟨fun _ _ => rfl, by omega⟩) hrun
      intro needed j _ outcome hexhausted
      cases hexhausted
    | some most =>
      rw [run] at hrun ⊢
      refine inStep_runTimes (ih hoverlooks) hstays ?_ hi (.inl rfl) hrun
      intro needed j _ outcome hexhausted
      obtain rfl := Option.some.inj hexhausted
      exact ⟨_, rfl, Outcome.mirrors_silent (by omega)⟩
  | commit _ ih => exact inStep_commit hline (ih hoverlooks)
  | subtree _ ih => exact inStep_subtree (ih hoverlooks)
  | expecting _ ih =>
    intro i hi outcome hrun
    rw [run] at hrun ⊢
    exact ih hoverlooks i hi outcome hrun

end Rule

/-! ### Lines -/

namespace Line

/-- A primitive that looks at the kind and the text of one token only. -/
private theorem overlooksPlaces_of_first {decide : Token → Token → Decision}
    (h : ∀ token location second second',
      (decide { token with location } second').bare = (decide token second).bare) :
    OverlooksPlaces decide := by
  intro first second first' second' hfirst _
  obtain ⟨location, rfl⟩ := hfirst.exists_eq
  exact h first location second second'

private theorem overlooks_atom (kind : TokenKind) : (Rule.atom kind).Overlooks :=
  overlooksPlaces_of_first fun _ _ _ _ => rfl

/-- Reading an operand from a token overlooks places. -/
private theorem overlooks_operand (expectation : String) (kind : TokenKind)
    (read : String → Option Node.Kind) : (Rule.operand expectation kind read).Overlooks := by
  refine overlooksPlaces_of_first fun token location _ _ => ?_
  dsimp only
  split
  case isTrue => cases read token.text <;> rfl
  case isFalse => rfl

/-- A word that is no keyword is a label, and any word in front of a colon. -/
private theorem overlooks_label : label.Overlooks := by
  intro first second first' second' hfirst hsecond
  obtain ⟨location, rfl⟩ := hfirst.exists_eq
  by_cases hword : first.kind = .word
  · have hsame := hsecond (not_endsLine_of_kind hword (by decide))
    simp only [hsame.kind]
    split
    case isTrue => rfl
    case isFalse =>
      split
      case isTrue => rfl
      case isFalse => split <;> rfl
  · simp [hword]

private theorem overlooks_mnemonic : mnemonic.Overlooks := by
  refine overlooksPlaces_of_first fun word location _ _ => ?_
  dsimp only
  split
  case isTrue => rfl
  case isFalse => cases Keyword.lookup word.text <;> rfl

private theorem overlooks_directiveName : directiveName.Overlooks := by
  refine overlooksPlaces_of_first fun word location _ _ => ?_
  dsimp only
  split
  case isTrue => rfl
  case isFalse => cases Directive.ofName? word.text <;> rfl

private theorem overlooks_hexNumber : hexNumber.Overlooks := by
  refine overlooksPlaces_of_first fun word location _ _ => ?_
  dsimp only
  split
  case isTrue => rfl
  case isFalse =>
    cases (hexDigits? word.text.toList).bind Text.hexValue? with
    | none => rfl
    | some value =>
      dsimp only
      split <;> rfl

/-- Digits are read as the same number at every place. -/
private theorem bare_decimalDigits {digits digits' : Token} (h : digits.Same digits')
    (skipped : Nat) (sign : Word → Word) :
    (decimalDigits skipped digits' sign).bare = (decimalDigits skipped digits sign).bare := by
  obtain ⟨location, rfl⟩ := h.exists_eq
  unfold decimalDigits
  dsimp only
  split
  case isTrue => rfl
  case isFalse => cases decimalValueFrom 0 digits.text.toList <;> rfl

private theorem overlooks_decimalNumber : decimalNumber.Overlooks := by
  intro first second first' second' hfirst hsecond
  simp only [hfirst.kind]
  by_cases hminus : first.kind = .minus
  · rw [if_pos hminus, if_pos hminus]
    exact bare_decimalDigits (hsecond (not_endsLine_of_kind hminus (by decide))) 1 _
  · rw [if_neg hminus, if_neg hminus]
    exact bare_decimalDigits hfirst 0 _

private theorem overlooks_lineEnd : lineEnd.Overlooks :=
  overlooksPlaces_of_first fun _ _ _ _ => rfl

private theorem overlooks_number : number.Overlooks := by
  simp [number, Rule.Overlooks, Rule.OverlookAll, overlooks_hexNumber, overlooks_atom,
    overlooks_decimalNumber]

private theorem overlooks_statement : (Rule.any [directive, instruction]).Overlooks := by
  simp [directive, instruction, directiveOperand, instructionOperand, register, labelReference,
    string, Rule.maybe, Rule.many, Rule.Overlooks, Rule.OverlookAll, overlooks_atom,
    overlooks_operand, overlooks_mnemonic, overlooks_directiveName, overlooks_number]

variable {tokens tokens' : Nat → Token} {budget budget' start start' length : Nat}

/-- **A line is read in the same way wherever it stands**: with the same errors, if its tokens are
    the same but for their places. -/
theorem complaints_run_line (hline : SameLine tokens tokens' start start' length)
    (hbudget : length < budget) (hbudget' : length < budget') {outcome outcome' : Outcome}
    (hrun : line.run (.ofTokens tokens) budget start = some outcome)
    (hrun' : line.run (.ofTokens tokens') budget' start' = some outcome') :
    outcome'.complaints = outcome.complaints := by
  have hlabel : (Rule.maybe label).Avoids EndsLine := .times avoids_label
  have hstatement : (Rule.maybe (.any [directive, instruction])).Avoids EndsLine :=
    .times avoids_statement
  have hsteps : ∀ {rule : Rule}, rule.Avoids EndsLine → rule.Overlooks →
      InStep start start' length (rule.run (.ofTokens tokens) budget)
        (rule.run (.ofTokens tokens') budget') :=
    fun havoids hoverlooks => havoids.inStep hline hoverlooks hbudget hbudget'
  -- the end of the line is the last rule, and the only one that may consume the token that ends it
  have hend : InStep start start' length (lineEnd.run (.ofTokens tokens) budget)
      (lineEnd.run (.ofTokens tokens') budget') :=
    Rule.inStep_primitive hline overlooks_lineEnd
  have hlast := Rule.inStep_runAll_last (Rule.inStep_commit hline hend)
  have hrest := Rule.inStep_runAll_staysOn (hsteps hstatement overlooks_statement)
    (hstatement.staysOn hline.ends hbudget) hlast
  have hall := Rule.inStep_runAll_staysOn (hsteps hlabel overlooks_label)
    (hlabel.staysOn hline.ends hbudget) hrest
  -- the label, the statement and the end of the line, from the first token of either line
  rw [line, Rule.run] at hrun hrun'
  obtain ⟨outcome'', hrun'', hmirrors⟩ := hall 0 (Nat.zero_le _) outcome hrun
  obtain rfl := Option.some.inj (hrun'.symm.trans hrun'')
  exact hmirrors.complaints

end Line

end LC3
