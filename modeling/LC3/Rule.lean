import LC3.Node
import LC3.SyntaxError
import LC3.Text.Quoted

namespace LC3

/-!
# Rules

A rule describes a piece of source. It can match; it can be rejected, and then another rule may be
tried at the same place; or it can fail, when the source starts like the rule and then goes wrong.
Rules are built from primitives, which look at two tokens, by a few ways to combine them.

* `Rule.primitive`, `Rule.atom`, `Rule.operand` — rules that look at tokens.
* `Rule.all`, `Rule.any`, `Rule.times`, `Rule.commit`, `Rule.subtree`, `Rule.recover`,
  `Rule.expecting` — the combinations.
* `Rule.expects` — what a rule expects, in words for messages.
-/

/-- How a rule ends. -/
inductive Verdict where
  /-- The rule describes what is there. -/
  | matched
  /-- The rule does not describe what is there; nothing is consumed. -/
  | rejected
  /-- What is there is malformed, and an error says why. -/
  | failed
deriving DecidableEq

/-- What a primitive rule makes of the token at its place and the one behind it. -/
inductive Decision where
  /-- Something else may be there. -/
  | reject
  /-- Consumes tokens and adds nodes to the tree. -/
  | accept (taken : Nat) (nodes : List Node)
  /-- Reports an error at the token behind some others. -/
  | fail (skipped : Nat) (error : SyntaxError)

/-- A description of a piece of source. -/
inductive Rule where
  /-- Looks at two tokens. -/
  | primitive (expectation : String) (decide : Token → Token → Decision)
  /-- All of some rules, one behind the other. -/
  | all (rules : List Rule)
  /-- The first of some rules that is not rejected. -/
  | any (rules : List Rule)
  /-- A rule again and again, at least `least` times and at most `most` times. A match that
      consumes nothing is the last one. -/
  | times (rule : Rule) (least : Nat) (most? : Option Nat)
  /-- A rule that must not be rejected: that would be an error. -/
  | commit (rule : Rule)
  /-- A rule whose nodes become one: the first, with the others as its children. -/
  | subtree (rule : Rule)
  /-- A rule whose failure is put right by skipping all that is left up to a token, and that token
      too. -/
  | recover (rule : Rule) (sync : TokenKind)
  /-- A rule that is called something else in messages. -/
  | expecting (rule : Rule) (expectation : String)

namespace Rule

/-- Alternatives in words: `a, b or c`. -/
def alternatives : List String → String
  | [] => ""
  | [last] => last
  | [first, last] => first ++ " or " ++ last
  | first :: others => first ++ ", " ++ alternatives others

mutual

/-- What a rule expects. A sequence expects its beginning. -/
def expects : Rule → String
  | primitive expectation _ => expectation
  | all [] => ""
  | all (rule :: _) => rule.expects
  | any rules => alternatives (expectations rules)
  | times rule _ _ => rule.expects
  | commit rule => rule.expects
  | subtree rule => rule.expects
  | recover rule _ => rule.expects
  | expecting _ expectation => expectation

/-- What each of some rules expects. -/
def expectations : List Rule → List String
  | [] => []
  | rule :: rules => rule.expects :: expectations rules

end

instance : ToString Rule where
  toString rule := s!"Rule({Text.quote rule.expects})"

/-- One token of a kind. -/
def atom (kind : TokenKind) : Rule :=
  primitive kind.description fun token _ =>
    if token.kind = kind then .accept 1 [] else .reject

/-- One token of a kind that becomes a node, if its text can be read. -/
def operand (expectation : String) (kind : TokenKind) (read : String → Option Node.Kind) : Rule :=
  primitive expectation fun token _ =>
    if token.kind = kind then
      match read token.text with
      | some payload => .accept 1 [Node.leaf payload token]
      | none => .reject
    else .reject

/-- A rule any number of times. -/
def many (rule : Rule) : Rule :=
  times rule 0 none

/-- A rule once or not at all. -/
def maybe (rule : Rule) : Rule :=
  times rule 0 (some 1)

/-- A rule at least so many times. -/
def atLeast (rule : Rule) (n : Nat) : Rule :=
  times rule n none

/-- A rule at most so many times. -/
def atMost (rule : Rule) (n : Nat) : Rule :=
  times rule 0 (some n)

/-- A rule so many times. -/
def exactly (rule : Rule) (n : Nat) : Rule :=
  times rule n (some n)

end Rule

end LC3
