import LC3.Breach
import LC3.Rule.Run
import LC3.Token.Buffer

namespace LC3

/-!
# Contexts

A context is a place in a source together with the nodes and errors found up to there. One can
look at tokens, consume them, go back to an earlier place, and apply rules. Going back takes nodes
away but never errors.
-/

/-- A place in a source, and what has been found. -/
structure Context where
  /-- The tokens of the source. -/
  buffer : Buffer
  /-- The rounds that each unbounded repetition may take. -/
  budget : Nat
  /-- How many tokens have been consumed. -/
  position : Nat
  nodes : List Node
  errors : List SyntaxFault

/-- A place to go back to. -/
structure Checkpoint where
  position : Nat
  /-- How many nodes there were. -/
  nodes : Nat
deriving DecidableEq

/-- Tokens that are read when they are needed. -/
def Buffer.source : TokenSource (StateT Buffer Option) where
  token index := fun buffer => some (buffer.get index)
  abandon := fun _ => none

namespace Context

/-- The beginning of a source. Every token but those at the end takes a character, which bounds the
    rounds of a repetition. -/
def ofSource (source : String) : Context :=
  ⟨.ofSource source, source.toList.length + 1, 0, [], []⟩

/-- The `n`-th token from here, counted from zero. -/
def peekNth (context : Context) (n : Nat) : Token × Context :=
  let (token, buffer) := context.buffer.get (context.position + n)
  (token, { context with buffer })

/-- The next token. -/
def peek (context : Context) : Token × Context :=
  context.peekNth 0

/-- Consumes the next token. -/
def advance (context : Context) : Token × Context :=
  let (token, seen) := context.peek
  (token, { seen with position := seen.position + 1 })

/-- This place. -/
def save (context : Context) : Checkpoint :=
  ⟨context.position, context.nodes.length⟩

/-- Goes to a place that was saved. Nodes added since are dropped. -/
def restore (context : Context) (checkpoint : Checkpoint) : Context :=
  { context with
    position := checkpoint.position
    nodes := context.nodes.take checkpoint.nodes }

/-- Adds a node. -/
def push (context : Context) (node : Node) : Context :=
  { context with nodes := context.nodes ++ [node] }

/-- Reports an error at a token. -/
def fail (context : Context) (error : SyntaxError) (token : Token) : Verdict × Context :=
  (.failed, { context with errors := context.errors ++ [⟨error, token.location⟩] })

/-- Applies a rule here. -/
def apply (context : Context) (rule : Rule) : Except Breach (Verdict × Context) :=
  match rule.run Buffer.source context.budget context.position context.buffer with
  | none => .error .endlessRule
  | some (outcome, buffer) =>
    .ok (outcome.verdict,
      { context with
        buffer
        position := outcome.position
        nodes := context.nodes ++ outcome.nodes
        errors := context.errors ++ outcome.errors })

end Context

end LC3
