import LC3.Proofs.Reading

namespace LC3

/-!
# Rules with checkpoints

A rule can be carried out with checkpoints: the place and the number of nodes are saved, the parts
of the rule go ahead and add what they find to the context, and what turns out not to belong there
is taken back by going to the checkpoint. `Rule.run` does none of this. It hands on what a part
found only when it is to stay. Both come to the same.

* `Context.perform` — a rule carried out with checkpoints.
* `Context.After` — a context with what an outcome adds to another one.
* `Context.agrees_perform` — carrying a rule out does what running it says.
-/

/-! ### Rules with checkpoints -/

namespace Context

/-- Consumes so many tokens. -/
def consume (context : Context) (count : Nat) : Context :=
  { context with position := context.position + count }

/-- Reports an error at the next token. -/
def failHere (context : Context) (error : TokenKind → SyntaxError) : Verdict × Context :=
  let (found, seen) := context.peek
  seen.fail (error found.kind) found

/-- Does what a primitive rule decides. -/
def carryOut (context : Context) : Decision → Verdict × Context
  | .reject => (.rejected, context)
  | .accept taken nodes => (.matched, nodes.foldl push (context.consume taken))
  | .fail skipped error => (context.consume skipped).failHere fun _ => error

/-- The end of a repetition: with too few matches it goes back to where it started. -/
def conclude (context : Context) (start : Checkpoint) (least count : Nat) : Verdict × Context :=
  if least ≤ count then (.matched, context) else (.rejected, context.restore start)

/-- Skips all that is left up to a token, and that token too. -/
def skip (sync : TokenKind) : Nat → Context → Option Context
  | 0, _ => none
  | budget + 1, context =>
    let (next, seen) := context.peek
    if next.kind = .sourceEnd then some seen
    else if next.kind = sync then some (seen.consume 1)
    else skip sync budget (seen.consume 1)

/-- Carries a step out again and again. What a rejected round leaves behind is taken back, but not
    the rounds before it. -/
def performTimes (step : Context → Option (Verdict × Context)) (bounded : Bool)
    (start : Checkpoint) (least : Nat) : Nat → Nat → Context → Option (Verdict × Context)
  | 0, count, context => if bounded then some (context.conclude start least count) else none
  | rounds + 1, count, context =>
    (step context).bind fun (verdict, behind) =>
      match verdict with
      | .rejected => some ((behind.restore context.save).conclude start least count)
      | .failed => some (.failed, behind)
      | .matched =>
        if behind.position = context.position then some (behind.conclude start least (count + 1))
        else performTimes step bounded start least rounds (count + 1) behind

mutual

/-- Carries a rule out with checkpoints. -/
def perform : Rule → Context → Option (Verdict × Context)
  | .primitive _ decide, context =>
    let (first, seen) := context.peek
    let (second, seen) := seen.peekNth 1
    some (seen.carryOut (decide first second))
  | .all rules, context => performAll rules context.save context
  | .any rules, context => performAny rules context
  | .times rule least most?, context =>
    match most? with
    | some most => performTimes (perform rule) true context.save least most 0 context
    | none => performTimes (perform rule) false context.save least context.budget 0 context
  | .commit rule, context =>
    (perform rule context).bind fun (verdict, behind) =>
      match verdict with
      | .rejected => some (behind.failHere (.unexpectedToken rule.expects))
      | verdict => some (verdict, behind)
  | .subtree rule, context =>
    -- the nodes found so far are put aside, and the new ones gathered
    (perform rule { context with nodes := [] }).bind fun (verdict, behind) =>
      let outer := { behind with nodes := context.nodes }
      match verdict, behind.nodes with
      | .matched, top :: others => some (.matched, outer.push (top.adopt others))
      | verdict, _ => some (verdict, outer)
  | .recover rule sync, context =>
    (perform rule context).bind fun (verdict, behind) =>
      match verdict with
      | .failed => ((behind.restore context.save).skip sync context.budget).map (.matched, ·)
      | verdict => some (verdict, behind)
  | .expecting rule _, context => perform rule context

/-- Carries rules out one behind the other. -/
def performAll : List Rule → Checkpoint → Context → Option (Verdict × Context)
  | [], _, context => some (.matched, context)
  | rule :: rules, start, context =>
    (perform rule context).bind fun (verdict, behind) =>
      match verdict with
      | .matched => performAll rules start behind
      | verdict => some (verdict, behind.restore start)

/-- Carries rules out at one place, until one is not rejected. -/
def performAny : List Rule → Context → Option (Verdict × Context)
  | [], context => some (.rejected, context)
  | rule :: rules, context =>
    (perform rule context).bind fun (verdict, behind) =>
      match verdict with
      | .rejected => performAny rules (behind.restore context.save)
      | verdict => some (verdict, behind)

end

/-! ### What is left behind -/

/-- A context with what an outcome adds to another one, over the same tokens. -/
structure After (tokens : Nat → Token) (context : Context) (outcome : Outcome)
    (behind : Context) : Prop where
  holds : behind.buffer.Holds tokens
  budget : behind.budget = context.budget
  position : behind.position = outcome.position
  nodes : behind.nodes = context.nodes ++ outcome.nodes
  errors : behind.errors = context.errors ++ outcome.errors

variable {tokens : Nat → Token} {context middle behind : Context} {first last outcome : Outcome}

/-- Nothing has been added yet. -/
theorem After.here (verdict : Verdict) (h : context.buffer.Holds tokens) :
    After tokens context ⟨verdict, context.position, [], []⟩ context :=
  ⟨h, rfl, rfl, (List.append_nil _).symm, (List.append_nil _).symm⟩

/-- Looking at a token changes nothing but how much has been read. -/
theorem after_peekNth (h : context.buffer.Holds tokens) (n : Nat) :
    (context.peekNth n).1 = tokens (context.position + n) ∧
      After tokens context (.refusal context.position) (context.peekNth n).2 := by
  obtain ⟨htoken, hholds⟩ := h.get (context.position + n)
  refine ⟨htoken, hholds, rfl, rfl, ?_, ?_⟩
  · exact (List.append_nil _).symm
  · exact (List.append_nil _).symm

/-- Looking at the next token only reads it. -/
theorem after_peek (h : context.buffer.Holds tokens) :
    context.peek.1 = tokens context.position ∧
      After tokens context (.refusal context.position) context.peek.2 :=
  after_peekNth h 0

/-- An error at the next token is added to those found before it. -/
theorem After.failHere (h : After tokens context outcome behind)
    (error : TokenKind → SyntaxError) :
    ∃ last, behind.failHere error = (.failed, last) ∧
      After tokens context
        { outcome with
          verdict := .failed
          errors := outcome.errors ++ [⟨error (tokens outcome.position).kind,
            (tokens outcome.position).location⟩] } last := by
  obtain ⟨htoken, hpeek⟩ := after_peek h.holds
  refine ⟨_, rfl, hpeek.holds, h.budget, h.position, h.nodes, ?_⟩
  show behind.errors ++ [⟨error behind.peek.1.kind, behind.peek.1.location⟩] = _
  rw [htoken, h.position, h.errors, List.append_assoc]

/-- What is added behind an outcome is added to it. -/
theorem After.trans (hfirst : After tokens context first middle)
    (hlast : After tokens middle last behind) :
    After tokens context (first.append last) behind where
  holds := hlast.holds
  budget := hlast.budget.trans hfirst.budget
  position := hlast.position
  nodes := by
    show behind.nodes = context.nodes ++ (first.nodes ++ last.nodes)
    rw [hlast.nodes, hfirst.nodes, List.append_assoc]
  errors := by
    show behind.errors = context.errors ++ (first.errors ++ last.errors)
    rw [hlast.errors, hfirst.errors, List.append_assoc]

/-- Going to a checkpoint takes back all that was added since, but not the errors. -/
theorem After.restore (h : After tokens context outcome behind) (verdict : Verdict) :
    After tokens context ⟨verdict, context.position, [], outcome.errors⟩
      (behind.restore context.save) where
  holds := h.holds
  budget := h.budget
  position := rfl
  nodes := by
    show behind.nodes.take context.nodes.length = context.nodes ++ []
    rw [h.nodes, List.take_left, List.append_nil]
  errors := h.errors

/-- Nodes that are added one by one are added in their order. -/
theorem foldl_push (nodes : List Node) (context : Context) :
    nodes.foldl push context = { context with nodes := context.nodes ++ nodes } := by
  induction nodes generalizing context with
  | nil => simp
  | cons node nodes ih => simp [ih, push]

/-- Carrying something out comes to what running it comes to. -/
def Agrees (tokens : Nat → Token) (context : Context) (run : Option Outcome)
    (performed : Option (Verdict × Context)) : Prop :=
  match run with
  | none => performed = none
  | some outcome => ∃ behind, performed = some (outcome.verdict, behind) ∧
      After tokens context outcome behind

namespace Agrees

variable {run : Option Outcome} {performed : Option (Verdict × Context)}

/-- A context that an outcome leaves behind agrees with it if the verdicts are the same. -/
theorem some {verdict : Verdict} (h : After tokens context outcome behind)
    (hverdict : outcome.verdict = verdict) :
    Agrees tokens context (some outcome) (some (verdict, behind)) :=
  ⟨behind, by rw [hverdict], h⟩

/-- What is carried out behind an outcome adds to it. -/
theorem after (h : After tokens context first middle) (hrest : Agrees tokens middle run performed) :
    Agrees tokens context (run.map first.append) performed := by
  cases run with
  | none => exact hrest
  | some rest =>
    obtain ⟨behind, hperformed, hbehind⟩ := hrest
    exact ⟨behind, hperformed, h.trans hbehind⟩

/-- What comes next may go by the verdict and by what is left behind. -/
theorem bind {next : Outcome → Option Outcome}
    {step : Verdict × Context → Option (Verdict × Context)} {inner : Context}
    (h : Agrees tokens inner run performed)
    (hnext : ∀ outcome behind, After tokens inner outcome behind →
      Agrees tokens context (next outcome) (step (outcome.verdict, behind))) :
    Agrees tokens context (run.bind next) (performed.bind step) := by
  cases run with
  | none =>
    have hnone : performed = none := h
    rw [hnone]
    exact (rfl : none = none)
  | some outcome =>
    obtain ⟨behind, hperformed, hafter⟩ := h
    rw [hperformed]
    exact hnext outcome behind hafter

end Agrees

/-! ### Every rule -/

variable {budget : Nat} {start : Context} {sync : TokenKind}

/-- A step of skipping looks at one token. -/
theorem skip_succ :
    context.skip sync (budget + 1) =
      if context.peek.1.kind = .sourceEnd then some context.peek.2
      else if context.peek.1.kind = sync then some (context.peek.2.consume 1)
      else (context.peek.2.consume 1).skip sync budget :=
  rfl

/-- Skipping goes to the same place. -/
theorem agrees_skip (sync : TokenKind) (budget : Nat)
    (h : After tokens start first context) (hverdict : first.verdict = .matched) :
    Agrees tokens start
      ((Rule.skipPast (.ofTokens tokens) sync budget context.position).map fun position =>
        { first with position })
      ((context.skip sync budget).map (.matched, ·)) := by
  induction budget generalizing context first with
  | zero => exact (rfl : Option.none = Option.none)
  | succ budget ih =>
    obtain ⟨htoken, hseen⟩ := after_peek h.holds
    rw [Rule.skipPast_succ, skip_succ, htoken]
    have hthere : After tokens start { first with position := context.position } context.peek.2 :=
      ⟨hseen.holds, h.budget, rfl, h.nodes, h.errors⟩
    have hconsumed : After tokens start { first with position := context.position + 1 }
        (context.peek.2.consume 1) :=
      ⟨hseen.holds, h.budget, rfl, h.nodes, h.errors⟩
    -- the end stays, the token that is looked for is taken, and any other is skipped
    split
    · exact .some hthere hverdict
    split
    · exact .some hconsumed hverdict
    · exact ih hconsumed hverdict

/-- Undoing a sequence undoes what precedes its last part too. -/
private theorem rewind_append_rewind (first second rest : Outcome) (start : Nat) :
    (first.append ((second.append rest).rewind first.position)).rewind start =
      ((first.append second).append rest).rewind start := by
  obtain ⟨verdict, position, nodes, errors⟩ := rest
  cases verdict <;> simp [Outcome.append, Outcome.rewind]

/-- A sequence goes back to its own checkpoint, whichever of its members does not match. -/
theorem agrees_performAll {rules : List Rule}
    (hrules : ∀ rule ∈ rules, ∀ context : Context, context.buffer.Holds tokens →
      context.budget = budget → Agrees tokens context
        (rule.run (.ofTokens tokens) budget context.position) (context.perform rule))
    (h : After tokens start first context) (hbudget : context.budget = budget) :
    Agrees tokens start
      ((Rule.runAll (.ofTokens tokens) budget rules context.position).map fun rest =>
        (first.append rest).rewind start.position)
      (performAll rules start.save context) := by
  induction rules generalizing first context with
  | nil =>
    rw [performAll]
    exact .some (h.trans (.here .matched h.holds)) rfl
  | cons rule rules ih =>
    obtain ⟨hrule, hrules⟩ := List.forall_mem_cons.mp hrules
    rw [Rule.runAll, performAll]
    show Agrees _ _ (Option.map _ (Option.bind _ _)) _
    rw [Option.map_bind]
    refine (hrule context h.holds hbudget).bind fun second behind hbehind => ?_
    have hboth : After tokens start (first.append second) behind := h.trans hbehind
    obtain ⟨verdict, position, nodes, errors⟩ := second
    cases verdict with
    | matched =>
      have hrest := ih hrules hboth (hbehind.budget.trans hbudget)
      rw [hbehind.position] at hrest
      show Agrees _ _ (Option.map _ (Option.bind (Rule.runAll _ _ rules position) _)) _
      rw [h.position]
      simpa only [Option.map_eq_bind, Option.bind_assoc, Option.pure_def, Option.bind_some,
        Function.comp_def, rewind_append_rewind] using hrest
    | rejected => exact .some (hboth.restore .rejected) rfl
    | failed => exact .some (hboth.restore .failed) rfl

/-- Alternatives are tried in the same context but for the errors of those before. -/
theorem agrees_performAny {rules : List Rule}
    (hrules : ∀ rule ∈ rules, ∀ context : Context, context.buffer.Holds tokens →
      context.budget = budget → Agrees tokens context
        (rule.run (.ofTokens tokens) budget context.position) (context.perform rule))
    (h : context.buffer.Holds tokens) (hbudget : context.budget = budget) :
    Agrees tokens context (Rule.runAny (.ofTokens tokens) budget rules context.position)
      (performAny rules context) := by
  induction rules generalizing context with
  | nil =>
    rw [performAny]
    exact .some (.here .rejected h) rfl
  | cons rule rules ih =>
    obtain ⟨hrule, hrules⟩ := List.forall_mem_cons.mp hrules
    rw [Rule.runAny, performAny]
    refine (hrule context h hbudget).bind fun first behind hbehind => ?_
    obtain ⟨verdict, position, nodes, errors⟩ := first
    cases verdict with
    | matched => exact .some hbehind rfl
    | failed => exact .some hbehind rfl
    | rejected =>
      -- the others start from the same place, with the errors that the rejected one has left
      have hback := hbehind.restore .rejected
      have hrest := (ih hrules hback.holds (hback.budget.trans hbudget)).after hback
      rw [hback.position, Option.map_eq_bind] at hrest
      exact hrest

/-- What a repetition comes to when its rounds are used up. -/
def exhausted (bounded : Bool) (needed position : Nat) : Option Outcome :=
  if bounded then some (.settle needed position []) else none

/-- Undoing a repetition undoes the rounds before its last one too. -/
private theorem rewindRejected_append_rewindRejected (first second rest : Outcome) (start : Nat) :
    (first.append ((second.append rest).rewindRejected first.position)).rewindRejected start =
      ((first.append second).append rest).rewindRejected start := by
  obtain ⟨verdict, position, nodes, errors⟩ := rest
  cases verdict <;> simp [Outcome.append, Outcome.rewindRejected]

/-- The end of a repetition, behind which its last round leaves only errors. -/
private theorem agrees_conclude {verdict : Verdict} {position : Nat}
    {errors : List SyntaxFault} (least count : Nat)
    (h : After tokens start (first.append ⟨verdict, position, [], errors⟩) context) :
    Agrees tokens start
      (some ((first.append (.settle (least - count) position errors)).rewindRejected
        start.position))
      (some (context.conclude start.save least count)) := by
  unfold conclude Outcome.settle
  by_cases henough : least ≤ count
  · have hkept : After tokens start (first.append ⟨.matched, position, [], errors⟩) context :=
      ⟨h.holds, h.budget, h.position, h.nodes, h.errors⟩
    rw [if_pos henough, if_pos (Nat.sub_eq_zero_of_le henough)]
    exact .some hkept rfl
  · -- too few matches are a rejection of the whole repetition
    have hneeded : ¬ least - count = 0 := by omega
    rw [if_neg henough, if_neg hneeded]
    exact .some (h.restore .rejected) rfl

/-- A repetition with too few matches goes back to its own checkpoint. -/
theorem agrees_performTimes {eager : Nat → Option Outcome}
    {step : Context → Option (Verdict × Context)} {bounded : Bool} {least rounds count : Nat}
    (hstep : ∀ context : Context, context.buffer.Holds tokens → context.budget = budget →
      Agrees tokens context (eager context.position) (step context))
    (h : After tokens start first context) (hbudget : context.budget = budget) :
    Agrees tokens start
      ((Rule.runTimes eager (exhausted bounded) rounds (least - count) context.position).map
        fun rest => (first.append rest).rewindRejected start.position)
      (performTimes step bounded start.save least rounds count context) := by
  induction rounds generalizing first context count with
  | zero =>
    rw [Rule.runTimes, performTimes]
    cases bounded with
    -- the rounds are used up: a failure of the budget, or the limit of the rule
    | false => exact (rfl : Option.none = Option.none)
    | true => exact agrees_conclude least count (h.trans (.here .matched h.holds))
  | succ rounds ih =>
    rw [Rule.runTimes, performTimes]
    show Agrees _ _ (Option.map _ (Option.bind _ _)) _
    rw [Option.map_bind]
    refine (hstep context h.holds hbudget).bind fun second behind hbehind => ?_
    have hboth : After tokens start (first.append second) behind := h.trans hbehind
    obtain ⟨verdict, position, nodes, errors⟩ := second
    cases verdict with
    -- a rejected round ends the repetition where the round began, and a failed one where it is
    | rejected => exact agrees_conclude least count (h.trans (hbehind.restore .rejected))
    | failed => exact .some hboth rfl
    | matched =>
      have hneeded : least - count - 1 = least - (count + 1) := by omega
      have hposition : behind.position = position := hbehind.position
      show Agrees _ _ (Option.map _ (if position = context.position then _ else _))
        (if behind.position = context.position then _ else _)
      rw [hposition, hneeded]
      split
      case isTrue hsame =>
        have hlast := agrees_conclude least (count + 1) (hboth.trans (.here .matched hboth.holds))
        rw [hposition, ← rewindRejected_append_rewindRejected, hsame, h.position] at hlast
        rw [hsame, h.position]
        exact hlast
      case isFalse =>
        have hrest : Agrees tokens start
            ((Rule.runTimes eager (exhausted bounded) rounds (least - (count + 1))
              behind.position).map _) _ := ih hboth (hbehind.budget.trans hbudget)
        rw [hposition] at hrest
        rw [h.position]
        simpa only [Option.map_eq_bind, Option.bind_eq_bind, Option.bind_assoc, Option.pure_def,
          Option.bind_some, Function.comp_def, rewindRejected_append_rewindRejected] using hrest

/-- Undoing a rejection does nothing to what honors the contract. -/
private theorem rewindRejected_of_honors {plain : Prop} {position : Nat}
    (h : outcome.Honors plain position) :
    ((Outcome.idle position).append outcome).rewindRejected position = outcome := by
  obtain ⟨verdict, position', nodes, errors⟩ := outcome
  cases verdict with
  | rejected =>
    obtain ⟨rfl, rfl⟩ : position' = position ∧ nodes = [] := h.rejected rfl
    rfl
  | matched => rfl
  | failed => rfl

/-- Undoing a sequence does nothing to what a sequence comes to. -/
private theorem rewind_of_runAll {rules : List Rule} {position : Nat}
    (h : Rule.runAll (.ofTokens tokens) budget rules position = some outcome) :
    ((Outcome.idle position).append outcome).rewind position = outcome := by
  -- a sequence has gone back already, whether or not its members match
  have hrewind : ∃ inner : Outcome, outcome = inner.rewind position := by
    cases rules with
    | nil => exact ⟨.idle position, (Option.some.inj h).symm⟩
    | cons rule rules =>
      obtain ⟨first, -, hcases⟩ := Rule.runAll_cons_eq_some_iff.mp h
      rcases hcases with ⟨-, rest, -, rfl⟩ | ⟨-, rfl⟩
      · exact ⟨_, rfl⟩
      · exact ⟨_, rfl⟩
  obtain ⟨⟨verdict, position', nodes, errors⟩, rfl⟩ := hrewind
  cases verdict <;> rfl

/-- A decision is carried out as the outcome says that it has. -/
private theorem agrees_carryOut {decision : Decision} (h : context.buffer.Holds tokens) :
    Agrees tokens context (some (decision.outcome tokens context.position))
      (some (context.carryOut decision)) := by
  cases decision with
  | reject => exact .some (.here .rejected h) rfl
  | accept taken nodes =>
    have hpushed : After tokens context (.success (context.position + taken) nodes)
        (nodes.foldl push (context.consume taken)) := by
      rw [foldl_push]
      exact ⟨h, rfl, rfl, rfl, (List.append_nil _).symm⟩
    exact .some hpushed rfl
  | fail skipped error =>
    have hthere : After tokens context (.success (context.position + skipped) [])
        (context.consume skipped) :=
      ⟨h, rfl, rfl, (List.append_nil _).symm, (List.append_nil _).symm⟩
    obtain ⟨last, hlast, hafter⟩ := hthere.failHere fun _ => error
    rw [carryOut, hlast]
    exact .some hafter rfl

/-- A primitive rule decides on the next two tokens, seen one behind the other. -/
private theorem agrees_primitive (expectation : String) (decide : Token → Token → Decision)
    (h : context.buffer.Holds tokens) :
    Agrees tokens context
      ((Rule.primitive expectation decide).run (.ofTokens tokens) context.budget context.position)
      (context.perform (.primitive expectation decide)) := by
  obtain ⟨hfirst, hpeek⟩ := after_peek h
  obtain ⟨hsecond, hpeek'⟩ := after_peekNth hpeek.holds 1
  have hseen := hpeek.trans hpeek'
  have hperform : context.perform (.primitive expectation decide) =
      some ((context.peek.2.peekNth 1).2.carryOut
        (decide context.peek.1 (context.peek.2.peekNth 1).1)) := by
    rw [perform]
  rw [Rule.run_primitive, hperform, hfirst, hsecond]
  exact (agrees_carryOut hseen.holds).after hseen

/-- A repetition may use its rounds up, or has as many as the budget. -/
private theorem agrees_times {rule : Rule} (least : Nat) (most? : Option Nat)
    (hrule : ∀ inner : Context, inner.buffer.Holds tokens → inner.budget = context.budget →
      Agrees tokens inner (rule.run (.ofTokens tokens) context.budget inner.position)
        (inner.perform rule))
    (h : context.buffer.Holds tokens) :
    Agrees tokens context
      ((Rule.times rule least most?).run (.ofTokens tokens) context.budget context.position)
      (context.perform (.times rule least most?)) := by
  have htimes : ∀ bounded rounds, Agrees tokens context
      ((Rule.runTimes (rule.run (.ofTokens tokens) context.budget) (exhausted bounded) rounds
        (least - 0) context.position).map _)
      (performTimes (perform rule) bounded context.save least rounds 0 context) :=
    fun bounded rounds => agrees_performTimes hrule (.here .matched h) rfl
  -- going back to the start of the repetition once more changes nothing
  have hsame : ((Rule.times rule least most?).run (.ofTokens tokens) context.budget
      context.position).map (fun rest =>
        ((Outcome.idle context.position).append rest).rewindRejected context.position) =
      (Rule.times rule least most?).run (.ofTokens tokens) context.budget context.position := by
    cases hrun : (Rule.times rule least most?).run (.ofTokens tokens) context.budget
        context.position with
    | none => rfl
    | some outcome => exact congrArg some (rewindRejected_of_honors (Rule.honors_run hrun))
  rw [← hsame]
  -- without a limit the budget bounds the rounds
  cases most? with
  | none =>
    rw [Rule.run, perform]
    exact htimes false context.budget
  | some most =>
    rw [Rule.run, perform]
    exact htimes true most

/-- A committed rule reports its rejection where it stands, with all that it left behind. -/
private theorem agrees_commit {rule : Rule}
    (hrule : Agrees tokens context (rule.run (.ofTokens tokens) context.budget context.position)
      (context.perform rule)) :
    Agrees tokens context
      ((Rule.commit rule).run (.ofTokens tokens) context.budget context.position)
      (context.perform (.commit rule)) := by
  rw [Rule.run, perform]
  refine hrule.bind fun outcome behind hbehind => ?_
  obtain ⟨verdict, position, nodes, errors⟩ := outcome
  cases verdict with
  | matched => exact .some hbehind rfl
  | failed => exact .some hbehind rfl
  | rejected =>
    -- the error is at the token that is next when the rule has been rejected
    obtain ⟨last, hlast, hafter⟩ := hbehind.failHere (.unexpectedToken rule.expects)
    show Agrees _ _ _ (some (behind.failHere _))
    rw [hlast]
    exact .some hafter rfl

/-- The nodes that were put aside come back, and those of the rule stand apart from them. -/
theorem After.gather {position : Nat} {nodes : List Node} {errors : List SyntaxFault}
    {verdict : Verdict}
    (h : After tokens { context with nodes := [] } ⟨verdict, position, nodes, errors⟩ behind)
    (verdict' : Verdict) (gathered : List Node) :
    After tokens context ⟨verdict', position, gathered, errors⟩
      { behind with nodes := context.nodes ++ gathered } :=
  ⟨h.holds, h.budget, h.position, rfl, h.errors⟩

/-- A subtree gathers what its rule finds, and keeps what was found in front of it. -/
private theorem agrees_subtree {rule : Rule}
    (hrule : Agrees tokens { context with nodes := [] }
      (rule.run (.ofTokens tokens) context.budget context.position)
      (perform rule { context with nodes := [] })) :
    Agrees tokens context
      ((Rule.subtree rule).run (.ofTokens tokens) context.budget context.position)
      (context.perform (.subtree rule)) := by
  rw [Rule.run, perform]
  refine hrule.bind fun outcome behind hbehind => ?_
  obtain ⟨verdict, position, nodes, errors⟩ := outcome
  have hnodes : behind.nodes = nodes := hbehind.nodes
  -- without nodes of its own the subtree leaves those that were there before
  have hnone : ∀ verdict, After tokens context ⟨verdict, position, [], errors⟩
      { behind with nodes := context.nodes } := by
    intro verdict
    simpa using hbehind.gather verdict []
  cases verdict with
  | rejected => exact .some (hnone .rejected) rfl
  | failed => exact .some (hnone .failed) rfl
  | matched =>
    cases nodes with
    | nil =>
      show Agrees _ _ _ (match Verdict.matched, behind.nodes with
        | .matched, top :: others => _ | verdict, _ => _)
      rw [hnodes]
      exact .some (hnone .matched) rfl
    | cons top others =>
      show Agrees _ _ _ (match Verdict.matched, behind.nodes with
        | .matched, top :: others => _ | verdict, _ => _)
      rw [hnodes]
      exact .some (hbehind.gather .matched [top.adopt others]) rfl

/-- A recovery takes the nodes of the failed rule back and goes ahead from its own place. -/
private theorem agrees_recover {rule : Rule} (sync : TokenKind)
    (hrule : Agrees tokens context (rule.run (.ofTokens tokens) context.budget context.position)
      (context.perform rule)) :
    Agrees tokens context
      ((Rule.recover rule sync).run (.ofTokens tokens) context.budget context.position)
      (context.perform (.recover rule sync)) := by
  rw [Rule.run, perform]
  refine hrule.bind fun outcome behind hbehind => ?_
  obtain ⟨verdict, position, nodes, errors⟩ := outcome
  cases verdict with
  | matched => exact .some hbehind rfl
  | rejected => exact .some hbehind rfl
  | failed =>
    -- the nodes of the rule are taken back, and what is skipped starts at its own place
    have hskip := agrees_skip sync context.budget (hbehind.restore .matched) rfl
    rw [Option.map_eq_bind] at hskip
    exact hskip

/-- **Checkpoints come to the same.** Carrying a rule out with checkpoints returns exactly if
    running it does, with the same verdict, and leaves the context with what the run adds to it. -/
theorem agrees_perform (rule : Rule) (h : context.buffer.Holds tokens) :
    Agrees tokens context (rule.run (.ofTokens tokens) context.budget context.position)
      (context.perform rule) := by
  induction rule using Rule.induct generalizing context with
  | primitive expectation decide => exact agrees_primitive expectation decide h
  | all rules ih =>
    have hall : Agrees tokens context
        ((Rule.runAll (.ofTokens tokens) context.budget rules context.position).map _) _ :=
      agrees_performAll (fun rule hrule inner hinner hbudget => hbudget ▸ ih rule hrule hinner)
        (.here .matched h) rfl
    have hsame : (Rule.runAll (.ofTokens tokens) context.budget rules context.position).map
        (fun rest => ((Outcome.idle context.position).append rest).rewind context.position) =
        Rule.runAll (.ofTokens tokens) context.budget rules context.position := by
      cases hrun : Rule.runAll (.ofTokens tokens) context.budget rules context.position with
      | none => rfl
      | some outcome => exact congrArg some (rewind_of_runAll hrun)
    rw [Rule.run, perform, ← hsame]
    exact hall
  | any rules ih =>
    rw [Rule.run, perform]
    exact agrees_performAny
      (fun rule hrule inner hinner hbudget => hbudget ▸ ih rule hrule hinner) h rfl
  | times rule least most? ih =>
    exact agrees_times least most? (fun inner hinner hbudget => hbudget ▸ ih hinner) h
  | commit rule ih => exact agrees_commit (ih h)
  | subtree rule ih =>
    have hinner : ({ context with nodes := [] } : Context).buffer.Holds tokens := h
    exact agrees_subtree (ih hinner)
  | recover rule sync ih => exact agrees_recover sync (ih h)
  | expecting rule _ ih =>
    rw [Rule.run, perform]
    exact ih h

end Context

end LC3
