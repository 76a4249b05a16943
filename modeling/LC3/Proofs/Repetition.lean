import LC3.Proofs.Budgets

namespace LC3

/-!
# Repetitions and sequences

A repetition counts its matches, goes back if there are too few of them, and stops at a failure
where it is. A sequence knows nothing of numbers. Still a repetition is a sequence of a shorter one
and what is left of it, and of as many copies of its rule as it needs, if that rule consumes
something whenever it matches. The two differ only in where a failure leaves off: a sequence goes
back then, and a repetition does not.

* `Rule.andThen`, `Rule.orBack` — a step behind another, and a step that is undone unless it
  matches. Up to that, steps are put together in an associative way.
* `Rule.orBack_runTimes_add` — the first rounds of a repetition are a sequence.
* `Context.Concur` — two rules come to the same in a context.
* `Context.concur_repetitions` — repetitions concur with sequences.
-/

namespace Outcome

variable {first rest outcome : Outcome} {start : Nat}

/-- What is undone twice is undone. -/
@[simp]
theorem rewind_rewind (outcome : Outcome) (start : Nat) :
    (outcome.rewind start).rewind start = outcome.rewind start := by
  obtain ⟨verdict, position, nodes, errors⟩ := outcome
  cases verdict <;> rfl

/-- A match is not undone. -/
theorem rewind_of_matched (h : outcome.verdict = .matched) : outcome.rewind start = outcome := by
  unfold rewind
  rw [h]

/-- Undoing all that did not match undoes what was rejected too. -/
theorem rewind_rewindRejected (outcome : Outcome) (start : Nat) :
    (outcome.rewindRejected start).rewind start = outcome.rewind start := by
  obtain ⟨verdict, position, nodes, errors⟩ := outcome
  cases verdict <;> rfl

/-- What the last part undoes is undone with all of it. -/
theorem rewind_append_rewind (first rest : Outcome) (start position : Nat) :
    (first.append (rest.rewind position)).rewind start = (first.append rest).rewind start := by
  obtain ⟨verdict, position', nodes, errors⟩ := rest
  cases verdict <;> rfl

theorem append_assoc (first second rest : Outcome) :
    (first.append second).append rest = first.append (second.append rest) := by
  simp only [append, List.append_assoc]

/-- A rule that honors the contract has nothing to undo unless it fails. -/
theorem Honors.rewind_eq {plain : Prop} (h : outcome.Honors plain start)
    (hfailed : outcome.verdict ≠ .failed) : outcome.rewind start = outcome := by
  obtain ⟨verdict, position, nodes, errors⟩ := outcome
  cases verdict with
  | matched => rfl
  | rejected =>
    obtain ⟨rfl, rfl⟩ : position = start ∧ nodes = [] := h.rejected rfl
    rfl
  | failed => exact absurd rfl hfailed

end Outcome

namespace Rule

/-! ### Steps one behind the other -/

/-- A step and, if it matches, another one behind it; all of it is undone unless both match. -/
def andThen (step next : Nat → Option Outcome) (start : Nat) : Option Outcome :=
  (step start).bind fun first =>
    if first.verdict = .matched then
      (next first.position).map fun rest => (first.append rest).rewind start
    else some (first.rewind start)

/-- A step that is undone unless it matches. -/
def orBack (step : Nat → Option Outcome) (start : Nat) : Option Outcome :=
  (step start).map (·.rewind start)

/-- The step that does nothing. -/
def stay (start : Nat) : Option Outcome :=
  some (.idle start)

variable {step next last : Nat → Option Outcome} {start : Nat} {first : Outcome}

/-- Behind a match the next step goes on. -/
theorem andThen_of_matched (h : step start = some first) (hmatched : first.verdict = .matched) :
    andThen step next start =
      (next first.position).map fun rest => (first.append rest).rewind start := by
  simp only [andThen, h, Option.bind_some, if_pos hmatched]

/-- Behind anything but a match no step follows. -/
theorem andThen_of_ne_matched (h : step start = some first) (hother : first.verdict ≠ .matched) :
    andThen step next start = some (first.rewind start) := by
  simp only [andThen, h, Option.bind_some, if_neg hother]

/-- If the first step does not end, neither do both. -/
theorem andThen_of_none (h : step start = none) : andThen step next start = none := by
  simp only [andThen, h, Option.bind_none]

/-- Two steps match one behind the other, or the first is undone. -/
theorem andThen_eq_some_iff {outcome : Outcome} : andThen step next start = some outcome ↔
    ∃ first, step start = some first ∧
      (first.verdict = .matched ∧
          (∃ rest, next first.position = some rest ∧
            outcome = (first.append rest).rewind start) ∨
        first.verdict ≠ .matched ∧ outcome = first.rewind start) := by
  rw [andThen, Option.bind_eq_some_iff]
  refine exists_congr fun first => and_congr_right fun _ => ?_
  by_cases hmatched : first.verdict = .matched
  · rw [if_pos hmatched, Option.map_eq_some_iff]
    simp [hmatched, eq_comm]
  · simp [hmatched, eq_comm]

/-- A step is undone unless it matches. -/
theorem orBack_of_some (h : step start = some first) :
    orBack step start = some (first.rewind start) := by
  simp only [orBack, h, Option.map_some]

/-- Two steps are undone together already. -/
@[simp]
theorem orBack_andThen : orBack (andThen step next) = andThen step next := by
  funext start
  cases hstep : step start with
  | none => rw [orBack, andThen_of_none hstep, Option.map_none]
  | some first =>
    by_cases hmatched : first.verdict = .matched
    · rw [orBack, andThen_of_matched hstep hmatched, Option.map_map]
      exact congrArg (Option.map · _) (funext fun rest => Outcome.rewind_rewind _ _)
    · rw [orBack_of_some (andThen_of_ne_matched hstep hmatched),
        andThen_of_ne_matched hstep hmatched, Outcome.rewind_rewind]

/-- A step need not undo what is undone anyway. -/
@[simp]
theorem andThen_orBack_left : andThen (orBack step) next = andThen step next := by
  funext start
  cases hstep : step start with
  | none =>
    have hnone : orBack step start = none := by rw [orBack, hstep, Option.map_none]
    rw [andThen_of_none hnone, andThen_of_none hstep]
  | some first =>
    have hback := orBack_of_some hstep
    -- a match is not undone in either case
    by_cases hmatched : first.verdict = .matched
    · rw [Outcome.rewind_of_matched hmatched] at hback
      rw [andThen_of_matched hback hmatched, andThen_of_matched hstep hmatched]
    · have hother : (first.rewind start).verdict ≠ .matched := by rwa [Outcome.verdict_rewind]
      rw [andThen_of_ne_matched hback hother, andThen_of_ne_matched hstep hmatched,
        Outcome.rewind_rewind]

/-- Nor need the step behind it undo what is undone anyway. -/
@[simp]
theorem andThen_orBack_right : andThen step (orBack next) = andThen step next := by
  funext start
  cases hstep : step start with
  | none => rw [andThen_of_none hstep, andThen_of_none hstep]
  | some first =>
    by_cases hmatched : first.verdict = .matched
    · rw [andThen_of_matched hstep hmatched, andThen_of_matched hstep hmatched, orBack,
        Option.map_map]
      exact congrArg (Option.map · _) (funext fun rest => Outcome.rewind_append_rewind _ _ _ _)
    · rw [andThen_of_ne_matched hstep hmatched, andThen_of_ne_matched hstep hmatched]

/-- Staying in front of a step changes nothing but that it is undone. -/
@[simp]
theorem stay_andThen : andThen stay next = orBack next := by
  funext start
  have hstay : stay start = some (.idle start) := rfl
  exact andThen_of_matched hstay rfl

/-- Staying behind a step changes nothing but that it is undone. -/
@[simp]
theorem andThen_stay : andThen step stay = orBack step := by
  funext start
  cases hstep : step start with
  | none => rw [andThen_of_none hstep, orBack, hstep, Option.map_none]
  | some first =>
    rw [orBack_of_some hstep]
    by_cases hmatched : first.verdict = .matched
    · obtain ⟨verdict, position, nodes, errors⟩ := first
      obtain rfl : verdict = .matched := hmatched
      rw [andThen_of_matched hstep rfl]
      simp only [stay, Option.map_some, Outcome.append, Outcome.idle, List.append_nil]
    · exact andThen_of_ne_matched hstep hmatched

/-- **Steps are put together in an associative way**, as what is undone goes back to the beginning
    of them all. -/
theorem andThen_assoc : andThen (andThen step next) last = andThen step (andThen next last) := by
  funext start
  cases hstep : step start with
  | none => rw [andThen_of_none (andThen_of_none hstep), andThen_of_none hstep]
  | some first =>
    by_cases hmatched : first.verdict = .matched
    case neg =>
      -- it does not match, so that nothing follows it on either side
      have hback : andThen step next start = some (first.rewind start) :=
        andThen_of_ne_matched hstep hmatched
      have hother : (first.rewind start).verdict ≠ .matched := by rwa [Outcome.verdict_rewind]
      rw [andThen_of_ne_matched hback hother, andThen_of_ne_matched hstep hmatched,
        Outcome.rewind_rewind]
    case pos =>
      -- it matches, so that the others start at its place
      have hboth : andThen step next start =
          (next first.position).map fun rest => (first.append rest).rewind start :=
        andThen_of_matched hstep hmatched
      rw [andThen_of_matched hstep hmatched]
      cases hnext : next first.position with
      | none =>
        rw [hnext, Option.map_none] at hboth
        rw [andThen_of_none hboth, andThen_of_none hnext, Option.map_none]
      | some second =>
        rw [hnext, Option.map_some] at hboth
        by_cases hmatched' : second.verdict = .matched
        · -- the last step starts at the same place
          have happend : ((first.append second).rewind start) = first.append second :=
            Outcome.rewind_of_matched hmatched'
          rw [happend] at hboth
          rw [andThen_of_matched hboth hmatched', andThen_of_matched hnext hmatched',
            Option.map_map]
          refine congrArg (Option.map · _) (funext fun rest => ?_)
          rw [Function.comp_apply, Outcome.rewind_append_rewind, Outcome.append_assoc]
        · -- the second step does not match, and both are undone
          have hother : ((first.append second).rewind start).verdict ≠ .matched := by
            rwa [Outcome.verdict_rewind]
          rw [andThen_of_ne_matched hboth hother, andThen_of_ne_matched hnext hmatched',
            Option.map_some, Outcome.rewind_rewind, Outcome.rewind_append_rewind]

/-! ### Sequences and repetitions as steps -/

variable {tokens : Nat → Token} {budget : Nat} {rule : Rule} {rules : List Rule}

/-- An empty sequence stays where it is. -/
theorem runAll_nil : runAll (.ofTokens tokens) budget [] = stay := by
  funext start
  rw [runAll]
  rfl

/-- A sequence is its first rule and the others behind it. -/
theorem runAll_cons : runAll (.ofTokens tokens) budget (rule :: rules) =
    andThen (rule.run (.ofTokens tokens) budget) (runAll (.ofTokens tokens) budget rules) :=
  funext fun _ => Option.ext fun _ =>
    runAll_cons_eq_some_iff.trans andThen_eq_some_iff.symm

/-- A sequence is undone as a whole already. -/
theorem orBack_runAll :
    orBack (runAll (.ofTokens tokens) budget rules) = runAll (.ofTokens tokens) budget rules := by
  cases rules with
  | nil =>
    rw [runAll_nil]
    rfl
  | cons rule rules => rw [runAll_cons, orBack_andThen]

/-- The rule of a sequence runs its rules one behind the other. -/
theorem run_all : (all rules).run (.ofTokens tokens) budget =
    runAll (.ofTokens tokens) budget rules :=
  funext fun start => by rw [run]

variable {exhausted : Nat → Nat → Option Outcome} {limit needed : Nat}

/-- What is rejected with matches still needed leaves only its errors. -/
private theorem rewind_settle (h : first.verdict = .rejected) :
    (Outcome.settle (needed + 1) start first.errors).rewind start = first.rewind start := by
  unfold Outcome.rewind
  rw [h]
  rfl

/-- A round that is still needed comes before the others. -/
theorem orBack_runTimes_succ
    (hstep : ∀ start first, step start = some first → first.verdict = .matched →
      start < first.position) :
    orBack (runTimes step exhausted (limit + 1) (needed + 1)) =
      andThen step (runTimes step exhausted limit needed) := by
  funext start
  refine Option.ext fun outcome => ?_
  rw [orBack, Option.map_eq_some_iff, andThen_eq_some_iff]
  constructor
  · -- the first round is rejected, fails or matches
    rintro ⟨whole, hrun, rfl⟩
    obtain ⟨first, hfirst, hcases⟩ := runTimes_succ_eq_some_iff.mp hrun
    refine ⟨first, hfirst, ?_⟩
    rcases hcases with ⟨hrejected, rfl⟩ | ⟨hfailed, rfl⟩ | ⟨hmatched, rest, rfl, hrest⟩
    · exact .inr ⟨by rw [hrejected]; decide, rewind_settle hrejected⟩
    · exact .inr ⟨by rw [hfailed]; decide, rfl⟩
    · rw [if_neg (Nat.ne_of_gt (hstep start first hfirst hmatched))] at hrest
      exact .inl ⟨hmatched, rest, hrest, Outcome.rewind_rewindRejected _ _⟩
  · rintro ⟨first, hfirst, ⟨hmatched, rest, hrest, rfl⟩ | ⟨hother, rfl⟩⟩
    · -- a round that matches has consumed something, so another one follows it
      have hmoved : first.position ≠ start := Nat.ne_of_gt (hstep start first hfirst hmatched)
      exact ⟨_, runTimes_succ_eq_some_iff.mpr ⟨first, hfirst, .inr (.inr ⟨hmatched, rest, rfl, by
        rwa [if_neg hmoved]⟩)⟩, Outcome.rewind_rewindRejected _ _⟩
    · -- a round that does not match ends the repetition, with the verdict that it has
      cases hverdict : first.verdict with
      | matched => exact absurd hverdict hother
      | rejected =>
        exact ⟨_, runTimes_succ_eq_some_iff.mpr ⟨first, hfirst, .inl ⟨hverdict, rfl⟩⟩,
          rewind_settle hverdict⟩
      | failed =>
        exact ⟨_, runTimes_succ_eq_some_iff.mpr ⟨first, hfirst, .inr (.inl ⟨hverdict, rfl⟩)⟩, rfl⟩

/-- **The first rounds of a repetition are a sequence**, if each of them is needed: as many copies
    of its rule, and a repetition of the rounds that are left. -/
theorem orBack_runTimes_add
    (hrule : ∀ start first, rule.run (.ofTokens tokens) budget start = some first →
      first.verdict = .matched → start < first.position) (n limit : Nat) :
    orBack (runTimes (rule.run (.ofTokens tokens) budget) exhausted (n + limit) n) =
      andThen (runAll (.ofTokens tokens) budget (List.replicate n rule))
        (runTimes (rule.run (.ofTokens tokens) budget) exhausted limit 0) := by
  induction n with
  | zero => rw [List.replicate_zero, runAll_nil, stay_andThen, Nat.zero_add]
  | succ n ih =>
    rw [Nat.add_right_comm, orBack_runTimes_succ hrule, ← andThen_orBack_right, ih,
      ← andThen_assoc, List.replicate_succ, runAll_cons]

/-- A number of rounds is a sequence of that many copies. -/
theorem orBack_run_exactly
    (hrule : ∀ start first, rule.run (.ofTokens tokens) budget start = some first →
      first.verdict = .matched → start < first.position) (n : Nat) :
    orBack ((exactly rule n).run (.ofTokens tokens) budget) =
      (all (List.replicate n rule)).run (.ofTokens tokens) budget := by
  have hadd : orBack (runTimes (rule.run (.ofTokens tokens) budget)
      (fun needed position => some (.settle needed position [])) n n) =
        andThen (runAll (.ofTokens tokens) budget (List.replicate n rule)) stay :=
    orBack_runTimes_add hrule n 0
  have hexactly : (exactly rule n).run (.ofTokens tokens) budget =
      runTimes (rule.run (.ofTokens tokens) budget)
        (fun needed position => some (.settle needed position [])) n n :=
    funext fun start => by rw [exactly, run]; rfl
  rw [hexactly, hadd, andThen_stay, orBack_runAll, run_all]

/-- A number of rounds in front of another rule is a sequence too. -/
private theorem run_all_exactly {other : Rule}
    (hrule : ∀ start first, rule.run (.ofTokens tokens) budget start = some first →
      first.verdict = .matched → start < first.position) (n : Nat) :
    (all [exactly rule n, other]).run (.ofTokens tokens) budget =
      andThen (runAll (.ofTokens tokens) budget (List.replicate n rule))
        (other.run (.ofTokens tokens) budget) := by
  have hexactly := orBack_run_exactly hrule n
  rw [run_all] at hexactly
  rw [run_all, runAll_cons, runAll_cons, runAll_nil, andThen_stay, andThen_orBack_right,
    ← andThen_orBack_left, hexactly]

/-- A repetition with an upper bound is one with the rounds that are needed and another with those
    that are left. -/
theorem orBack_run_times
    (hrule : ∀ start first, rule.run (.ofTokens tokens) budget start = some first →
      first.verdict = .matched → start < first.position) {least most : Nat} (h : least ≤ most) :
    orBack ((times rule least (some most)).run (.ofTokens tokens) budget) =
      (all [exactly rule least, atMost rule (most - least)]).run (.ofTokens tokens) budget := by
  obtain ⟨more, rfl⟩ := Nat.exists_eq_add_of_le h
  have htimes : (times rule least (some (least + more))).run (.ofTokens tokens) budget =
      runTimes (rule.run (.ofTokens tokens) budget)
        (fun needed position => some (.settle needed position [])) (least + more) least :=
    funext fun start => by rw [run]; rfl
  have hatMost : (atMost rule more).run (.ofTokens tokens) budget =
      runTimes (rule.run (.ofTokens tokens) budget)
        (fun needed position => some (.settle needed position [])) more 0 :=
    funext fun start => by rw [atMost, run]; rfl
  rw [htimes, orBack_runTimes_add hrule, Nat.add_sub_cancel_left, run_all_exactly hrule, hatMost]

/-- A repetition without an upper bound is one with the rounds that are needed and another without
    a lower bound. -/
theorem orBack_run_atLeast {last : Nat} (hsettled : ∀ i, last ≤ i → tokens i = tokens last)
    (hrule : ∀ start first, rule.run (.ofTokens tokens) budget start = some first →
      first.verdict = .matched → start < first.position)
    (hbudget : last < budget) (n : Nat) :
    orBack ((atLeast rule n).run (.ofTokens tokens) budget) =
      (all [exactly rule n, many rule]).run (.ofTokens tokens) budget := by
  have hatLeast : (atLeast rule n).run (.ofTokens tokens) budget =
      runTimes (rule.run (.ofTokens tokens) budget) (fun _ _ => none) (n + budget) n := by
    funext start
    rw [atLeast, run]
    -- the rounds that are needed may be taken on top of the budget
    exact Option.ext fun _ => ⟨runTimes_of_runTimes hsettled (Nat.lt_add_left n hbudget),
      runTimes_of_runTimes hsettled hbudget⟩
  -- the rounds behind those that are needed are limited by the budget
  have hmany : (many rule).run (.ofTokens tokens) budget =
      runTimes (rule.run (.ofTokens tokens) budget) (fun _ _ => none) budget 0 :=
    funext fun start => by rw [many, run]; rfl
  rw [hatLeast, orBack_runTimes_add hrule, run_all_exactly hrule, hmany]

end Rule

/-! ### Rules in contexts -/

/-- Whether a rule consumes something of a source whenever it matches. -/
def Rule.Consumes (rule : Rule) (source : String) : Prop :=
  ∀ context behind : Context, context.Reads source →
    context.apply rule = .ok (.matched, behind) → context.position < behind.position

namespace Rule

variable {source : String} {rule : Rule}

/-- A primitive that takes a token whenever it matches consumes something. -/
theorem consumes_primitive {expectation : String} {decide : Token → Token → Decision}
    (h : ∀ token next taken nodes, decide token next = .accept taken nodes → 0 < taken) :
    (primitive expectation decide).Consumes source := by
  intro context behind hreads happly
  obtain ⟨outcome, hrun, hmatched, hafter⟩ := Context.exists_run_of_apply hreads.holds happly
  rw [run_primitive] at hrun
  obtain rfl := Option.some.inj hrun
  rw [hafter.position]
  cases hdecision : decide ((Lexer.ofSource source).nth context.position)
      ((Lexer.ofSource source).nth (context.position + 1)) with
  | accept taken nodes => exact Nat.lt_add_of_pos_right (h _ _ _ _ hdecision)
  | reject =>
    rw [hdecision] at hmatched
    cases hmatched
  | fail skipped error =>
    rw [hdecision] at hmatched
    cases hmatched

/-- Commitment makes no match of what is none. -/
theorem Consumes.commit (h : rule.Consumes source) : (commit rule).Consumes source := by
  intro context behind hreads happly
  obtain ⟨outcome, hrun, hmatched, hafter⟩ := Context.exists_run_of_apply hreads.holds happly
  rw [run_commit] at hrun
  obtain ⟨first, hfirst, rfl⟩ := Option.map_eq_some_iff.mp hrun
  obtain ⟨middle, happly', -, -, hposition, -, -⟩ := hreads.exists_apply hfirst
  obtain ⟨verdict, position, nodes, errors⟩ := first
  cases verdict with
  | rejected => cases hmatched
  | failed => cases hmatched
  | matched =>
    have hbehind : behind.position = middle.position := hafter.position.trans hposition.symm
    rw [hbehind]
    exact h context middle hreads happly'

end Rule

/-- A label takes a token at least. -/
theorem Line.consumes_label {source : String} : label.Consumes source := by
  refine Rule.consumes_primitive fun token next taken nodes hdecide => ?_
  split at hdecide
  · cases hdecide
  split at hdecide
  · cases hdecide
    exact Nat.zero_lt_two
  split at hdecide
  · cases hdecide
  · cases hdecide
    exact Nat.zero_lt_one

namespace Context

/-- Two rules come to the same in a context: neither returns, or both do with the same verdict and
    the same errors, and at the same place with the same nodes unless they fail. -/
def Concur (context : Context) (rule other : Rule) : Prop :=
  match context.apply rule, context.apply other with
  | .error breach, .error breach' => breach = breach'
  | .ok (verdict, behind), .ok (verdict', behind') =>
    verdict = verdict' ∧ behind.errors = behind'.errors ∧
      (verdict ≠ .failed → behind.position = behind'.position ∧ behind.nodes = behind'.nodes)
  | _, _ => False

variable {context : Context} {source : String} {rule other : Rule}

/-- Rules concur if they do up to what is undone unless they match. -/
private theorem concur_of_orBack {tokens : Nat → Token} (h : context.buffer.Holds tokens)
    (hrun : Rule.orBack (rule.run (.ofTokens tokens) context.budget) context.position =
      other.run (.ofTokens tokens) context.budget context.position) :
    context.Concur rule other := by
  unfold Concur
  cases hrule : rule.run (.ofTokens tokens) context.budget context.position with
  | none =>
    have hother : other.run (.ofTokens tokens) context.budget context.position = none := by
      rw [← hrun, Rule.orBack, hrule, Option.map_none]
    rw [apply_of_run_eq_none h hrule, apply_of_run_eq_none h hother]
  | some outcome =>
    have hother : other.run (.ofTokens tokens) context.budget context.position =
        some (outcome.rewind context.position) := by
      rw [← hrun, Rule.orBack_of_some hrule]
    obtain ⟨behind, happly, hafter⟩ := exists_apply_of_run h hrule
    obtain ⟨behind', happly', hafter'⟩ := exists_apply_of_run h hother
    rw [happly, happly']
    refine ⟨Outcome.verdict_rewind.symm, ?_, fun hfailed => ?_⟩
    · -- errors are kept when something is undone
      rw [hafter.errors, hafter'.errors, Outcome.errors_rewind]
    · -- and unless it fails, it is where it would be if it had been undone
      rw [hafter.position, hafter'.position, hafter.nodes, hafter'.nodes,
        (Rule.honors_run hrule).rewind_eq hfailed]
      exact ⟨rfl, rfl⟩

/-- What a rule consumes when it is applied it consumes when it is run. -/
private theorem Reads.lt_of_run (h : context.Reads source) (hconsumes : rule.Consumes source)
    {start : Nat} {first : Outcome}
    (hrun : rule.run (.ofTokens (Lexer.ofSource source).nth) context.budget start = some first)
    (hmatched : first.verdict = .matched) : start < first.position := by
  have hthere : { context with position := start }.Reads source := ⟨h.holds, h.enough⟩
  obtain ⟨behind, happly, -, -, hposition, -, -⟩ := hthere.exists_apply hrun
  rw [hmatched] at happly
  rw [← hposition]
  exact hconsumes _ behind hthere happly

/-- **Repetitions agree with sequences** in every context of a source, for a rule that consumes
    something whenever it matches. A repetition without an upper bound that never stops, as it
    consumes the end of the source, does not in a sequence either. -/
theorem concur_repetitions (h : context.Reads source) (hconsumes : rule.Consumes source) :
    (∀ least most, least ≤ most →
      context.Concur (.times rule least (some most))
        (.all [.exactly rule least, .atMost rule (most - least)])) ∧
    (∀ n, context.Concur (.exactly rule n) (.all (List.replicate n rule))) ∧
    ∀ n, context.Concur (.atLeast rule n) (.all [.exactly rule n, .many rule]) := by
  -- that the rule consumes something is a fact about its runs on the tokens
  have hforward : ∀ start first,
      rule.run (.ofTokens (Lexer.ofSource source).nth) context.budget start = some first →
        first.verdict = .matched → start < first.position :=
    fun start first => h.lt_of_run hconsumes
  obtain ⟨last, hlength, -, hsettled⟩ := (Lexer.ofSource source).exists_settled
  have hbudget : last < context.budget := Nat.lt_of_le_of_lt hlength h.enough
  refine ⟨fun least most hle => ?_, fun n => ?_, fun n => ?_⟩
  · exact concur_of_orBack h.holds (congrFun (Rule.orBack_run_times hforward hle) _)
  · exact concur_of_orBack h.holds (congrFun (Rule.orBack_run_exactly hforward n) _)
  · exact concur_of_orBack h.holds
      (congrFun (Rule.orBack_run_atLeast hsettled hforward hbudget n) _)

/-- Labels that must be there, in a context that holds a node and an error: two of them are, and
    where a third should be is a number. -/
theorem concur_repetitions_labels :
    let source := "A B: 12"
    let rule : Rule := .commit Line.label
    let context : Context :=
      { Context.ofSource source with nodes := [.root []], errors := [⟨.invalidNumber, .start⟩] }
    (context.apply (.exactly rule 2)).map (fun (verdict, behind) =>
        (verdict, behind.position, behind.errors.length)) = .ok (.matched, 3, 1) ∧
      (context.apply (.exactly rule 3)).map (fun (verdict, behind) =>
        (verdict, behind.position, behind.errors.length)) = .ok (.failed, 3, 2) ∧
      context.Concur (.times rule 1 (some 3)) (.all [.exactly rule 1, .atMost rule 2]) ∧
      context.Concur (.exactly rule 3) (.all [rule, rule, rule]) ∧
      context.Concur (.atLeast rule 2) (.all [.exactly rule 2, .many rule]) := by
  intro source rule context
  have hreads : context.Reads source :=
    ⟨(reads_ofSource source).holds, (reads_ofSource source).enough⟩
  obtain ⟨htimes, hexactly, hatLeast⟩ := concur_repetitions hreads Line.consumes_label.commit
  exact ⟨by decide +kernel, by decide +kernel, htimes 1 3 (by decide), hexactly 3, hatLeast 2⟩

end Context

end LC3
