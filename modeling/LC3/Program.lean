import LC3.Line
import LC3.Rule.Context
import LC3.Stage

namespace LC3

/-!
# Programs

The syntax tree of a source: the labels and statements of all its lines below one root.
-/

/-- The error of a source that ends in the middle of things, unless there is an error already. -/
def Context.requireEnd (verdict : Verdict) (context : Context) : Context :=
  if verdict ≠ .matched ∧ context.errors.isEmpty then
    let (found, seen) := context.peek
    (seen.fail (.unexpectedToken TokenKind.sourceEnd.description found.kind) found).2
  else context

/-- Reads a source. There is one error for each line that cannot be read; the tree holds the
    others. -/
def parse (source : String) : Except Breach (StageResult Node) := do
  let (verdict, context) ← (Context.ofSource source).apply Line.document
  let finished := context.requireEnd verdict
  let root := Node.root finished.nodes
  return {
    product := root
    notices := finished.errors.map SyntaxFault.notice
    log := [Stage.parsing.record .debug "parsed source"
      [("statements", toString root.children.length), ("nodes", toString root.size),
        ("errors", toString finished.errors.length)]] }

end LC3
