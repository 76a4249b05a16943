import LC3.Arguments
import LC3.Stage

namespace LC3

/-!
# Regions

A region of memory is what stands between `.ORIG` and `.END`. Statements that place words in memory
have to stand inside a region, and regions do not overlap. The analysis of a program checks this,
and that the operands of each statement have one of its formats; the format of an instruction is
recorded in the tree.

* `Region.after` — the region behind a statement.
* `Region.error?`, `Node.formatError?` — what is wrong with a statement.
* `Node.analyze` — the analysis of a whole program.
-/

/-- Where a statement stands. -/
inductive Region where
  /-- Outside every region. -/
  | outside
  /-- Inside the region that an `.ORIG` at this place has opened. -/
  | inside (origin? : Option Location)
deriving DecidableEq

namespace Region

/-- The region behind a statement. A nested `.ORIG` does not open a new one. -/
def after : Region → Node → Region
  | outside, node =>
    match node.kind with
    | .directive .orig => inside node.location?
    | _ => outside
  | inside origin?, node =>
    match node.kind with
    | .directive .endRegion => outside
    | _ => inside origin?

/-- What is wrong about a statement where it stands. -/
def error? : Region → Node.Kind → Option AssemblyError
  | inside _, .directive .orig => some .nestedOrigin
  | inside _, _ => none
  | outside, .directive .orig => none
  | outside, .directive .endRegion => some .unopenedEnd
  | outside, .directive directive => some (.memoryOutsideRegion directive)
  | outside, .instruction _ _ _ => some .instructionOutsideRegion
  | outside, _ => none

/-- A region that is never closed. -/
def warning? : Region → Option Notice
  | outside => none
  | inside origin? => some ⟨.warning, .assembly .unclosedOrigin, origin?⟩

end Region

namespace Node

/-- The first format of an instruction that its operands have. -/
def matchedFormat? (mnemonic : Mnemonic) (operands : List Node) : Option Format :=
  mnemonic.formats.find? (·.fits operands)

/-- What is wrong about the operands of a statement. An instruction is named as it is written, a
    directive in upper case. -/
def formatError? (node : Node) : Option AssemblyError :=
  match node.kind with
  | .directive directive =>
    if directive.formats.any (·.fits node.children) then none
    else some (.ofFormats (toString directive) directive.formats)
  | .instruction mnemonic _ _ =>
    if (matchedFormat? mnemonic node.children).isSome then none
    else
      let name := (node.token?.map Token.text).getD mnemonic.name
      some (.ofFormats name mnemonic.formats)
  | _ => none

/-- A statement with its format recorded, if its operands have one. -/
def recordFormat (node : Node) : Node :=
  match node.kind with
  | .instruction mnemonic _ flags? =>
    match matchedFormat? mnemonic node.children with
    | some format => { node with kind := .instruction mnemonic (some format) flags? }
    | none => node
  | _ => node

/-- The log record of a format that was found. -/
def formatRecord? (node : Node) : Option LogRecord :=
  match node.kind with
  | .instruction mnemonic _ _ =>
    (matchedFormat? mnemonic node.children).map fun format =>
      Stage.analysis.record .trace "matched format"
        [("line", toString node.line), ("opcode", mnemonic.name), ("format", format.name)]
  | _ => none

/-- All that is wrong about a statement, its place before its operands. -/
def statementNotices (region : Region) (node : Node) : List Notice :=
  ((region.error? node.kind).toList ++ node.formatError?.toList).map fun error =>
    AssemblyFault.notice ⟨error, node.location?⟩

/-- All that is wrong about some statements, of which the first stands in the given region. -/
def regionNotices : Region → List Node → List Notice
  | region, [] => region.warning?.toList
  | region, node :: nodes =>
    statementNotices region node ++ regionNotices (region.after node) nodes

/-- Checks the statements of a program. -/
def analyze (root : Node) : StageResult Node :=
  let notices := regionNotices .outside root.children
  { product := { root with children := root.children.map recordFormat }
    notices
    log := root.children.filterMap formatRecord? ++
      [Stage.analysis.record .debug "analyzed statements"
        [("statements", toString root.children.length),
          ("errors", toString (notices.countP Notice.isError))]] }

end Node

end LC3
