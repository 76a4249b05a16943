import LC3.Rule

namespace LC3

/-!
# Running rules

`Rule.run` applies a rule at a position in a sequence of tokens. Where the tokens come from is left
open: a `TokenSource` gives them by number in any monad, be it one that reads them when they are
needed or one that has them all.

A rule that is rejected leaves no trace, so an outcome holds what the rule adds to the nodes found
before it, and never takes anything away from them. Errors stay whatever happens later.

A repetition without an upper bound goes on as long as its rule consumes tokens, and the tokens
that end a source never run out. So each such repetition has a budget of rounds. The number of
tokens before the end and one more are enough; a rule that needs more would never stop, and the
computation is abandoned.
-/

/-- Where the tokens come from that rules are applied to. -/
structure TokenSource (m : Type → Type) where
  /-- The token with a number, counted from zero. -/
  token : Nat → m Token
  /-- Ends a computation that would never stop. -/
  abandon {α : Type} : m α

/-- What comes of applying a rule. -/
structure Outcome where
  verdict : Verdict
  /-- How many tokens precede the place behind the rule. -/
  position : Nat
  /-- The nodes that the rule adds. -/
  nodes : List Node
  /-- The errors that the rule adds. -/
  errors : List SyntaxFault

namespace Outcome

/-- A match that consumes nothing. -/
def idle (position : Nat) : Outcome :=
  ⟨.matched, position, [], []⟩

/-- Undoes all but the errors, unless there is a match. -/
def rewind (outcome : Outcome) (start : Nat) : Outcome :=
  match outcome.verdict with
  | .matched => outcome
  | verdict => ⟨verdict, start, [], outcome.errors⟩

/-- Undoes all but the errors, if the rule is rejected. -/
def rewindRejected (outcome : Outcome) (start : Nat) : Outcome :=
  match outcome.verdict with
  | .rejected => ⟨.rejected, start, [], outcome.errors⟩
  | _ => outcome

/-- One outcome and the one behind it as a single one. -/
def append (first last : Outcome) : Outcome :=
  { last with nodes := first.nodes ++ last.nodes, errors := first.errors ++ last.errors }

/-- The end of a repetition that still needs some more matches. -/
def settle (needed position : Nat) (errors : List SyntaxFault) : Outcome :=
  ⟨if needed = 0 then .matched else .rejected, position, [], errors⟩

/-- An outcome whose rejection is an error at a given token. -/
def insist (outcome : Outcome) (expected : String) (found : Token) : Outcome :=
  match outcome.verdict with
  | .rejected =>
    { outcome with
      verdict := .failed
      errors := outcome.errors ++ [⟨.unexpectedToken expected found.kind, found.location⟩] }
  | _ => outcome

/-- An outcome whose nodes are made into one; a failed rule leaves none. -/
def gather (outcome : Outcome) : Outcome :=
  match outcome.verdict, outcome.nodes with
  | .matched, top :: others => { outcome with nodes := [top.adopt others] }
  | _, _ => { outcome with nodes := [] }

end Outcome

namespace Rule

variable {m : Type → Type} [Monad m]

/-- The position behind the next token of a kind, or that of the end of the source. -/
def skipPast (source : TokenSource m) (sync : TokenKind) : Nat → Nat → m Nat
  | 0, _ => source.abandon
  | budget + 1, position => do
    let next ← source.token position
    if next.kind = .sourceEnd then return position
    else if next.kind = sync then return position + 1
    else skipPast source sync budget (position + 1)

/-- Applies a step again and again, until it is rejected, fails or consumes nothing. What happens
    when the limit of rounds is reached is for `exhausted` to say; `needed` is the number of matches
    that are still required. -/
def runTimes (step : Nat → m Outcome) (exhausted : Nat → Nat → m Outcome) :
    Nat → Nat → Nat → m Outcome
  | 0, needed, start => exhausted needed start
  | limit + 1, needed, start => do
    let first ← step start
    match first.verdict with
    | .rejected => return .settle needed start first.errors
    | .failed => return first
    | .matched =>
      if first.position = start then
        return (first.append (.settle (needed - 1) start [])).rewindRejected start
      else
        let rest ← runTimes step exhausted limit (needed - 1) first.position
        return (first.append rest).rewindRejected start

mutual

/-- Applies a rule at a position. -/
def run (source : TokenSource m) (budget : Nat) : Rule → Nat → m Outcome
  | primitive _ decide, start => do
    let first ← source.token start
    let second ← source.token (start + 1)
    match decide first second with
    | .reject => return ⟨.rejected, start, [], []⟩
    | .accept taken nodes => return ⟨.matched, start + taken, nodes, []⟩
    | .fail skipped error =>
      let found ← source.token (start + skipped)
      return ⟨.failed, start + skipped, [], [⟨error, found.location⟩]⟩
  | all rules, start => runAll source budget rules start
  | any rules, start => runAny source budget rules start
  | times rule least most?, start =>
    match most? with
    | some most =>
      runTimes (rule.run source budget) (fun needed position => return .settle needed position [])
        most least start
    | none => runTimes (rule.run source budget) (fun _ _ => source.abandon) budget least start
  | commit rule, start => do
    let outcome ← rule.run source budget start
    let found ← source.token outcome.position
    return outcome.insist rule.expects found
  | subtree rule, start => do
    let outcome ← rule.run source budget start
    return outcome.gather
  | recover rule sync, start => do
    let outcome ← rule.run source budget start
    match outcome.verdict with
    | .failed =>
      let position ← skipPast source sync budget start
      return ⟨.matched, position, [], outcome.errors⟩
    | _ => return outcome
  | expecting rule _, start => rule.run source budget start

/-- Applies rules one behind the other. -/
def runAll (source : TokenSource m) (budget : Nat) : List Rule → Nat → m Outcome
  | [], start => return .idle start
  | rule :: rules, start => do
    let first ← rule.run source budget start
    match first.verdict with
    | .matched =>
      let rest ← runAll source budget rules first.position
      return (first.append rest).rewind start
    | _ => return first.rewind start

/-- Applies rules at one place, until one is not rejected. -/
def runAny (source : TokenSource m) (budget : Nat) : List Rule → Nat → m Outcome
  | [], start => return ⟨.rejected, start, [], []⟩
  | rule :: rules, start => do
    let first ← rule.run source budget start
    match first.verdict with
    | .rejected =>
      let rest ← runAny source budget rules start
      return { rest with errors := first.errors ++ rest.errors }
    | _ => return first

end

end Rule

end LC3
