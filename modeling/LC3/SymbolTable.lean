import LC3.Counter
import LC3.Stage

namespace LC3

/-!
# Symbol tables

Labels and their addresses. A label has the address of the next statement that places words in
memory, or of the next `.ORIG`, so neighbouring labels share one address. Each label has to be
defined exactly once, and those that are used have to be defined.

* `SymbolTable.lookup`, `SymbolTable.insert`, `SymbolTable.toSortedList` — tables as such.
* `Node.nameNotices` — labels defined twice or never.
* `Binder` — the walk that gives labels their addresses.
* `SymbolTable.build` — the table of a program.
-/

/-- Labels with their addresses, each label once. -/
structure SymbolTable where
  entries : List (String × Word)
deriving DecidableEq

namespace SymbolTable

/-- No labels. -/
def empty : SymbolTable := ⟨[]⟩

/-- The address of a label. -/
def lookup (table : SymbolTable) (name : String) : Option Word :=
  table.entries.lookup name

/-- Gives a label an address. -/
def insert (table : SymbolTable) (name : String) (address : Word) : SymbolTable :=
  ⟨(name, address) :: table.entries.filter (·.1 ≠ name)⟩

/-- Gives labels addresses, one behind the other. -/
def ofList (entries : List (String × Word)) : SymbolTable :=
  entries.foldl (fun table (name, address) => table.insert name address) empty

/-- The number of labels. -/
def size (table : SymbolTable) : Nat :=
  table.entries.length

/-- Whether there are no labels. -/
def isEmpty (table : SymbolTable) : Bool :=
  table.entries.isEmpty

/-- Whether an entry comes before another or is it: by address, then by name. -/
def precedes (first second : String × Word) : Bool :=
  first.2 < second.2 || (first.2 = second.2 && first.1 ≤ second.1)

/-- The labels in the order of their addresses and names. -/
def toSortedList (table : SymbolTable) : List (String × Word) :=
  table.entries.mergeSort precedes

end SymbolTable

namespace Node

/-- The definitions of labels in a tree. -/
def definitions (root : Node) : List Node :=
  root.walk.filter (·.kind = .labelDefinition)

/-- The uses of labels in a tree. -/
def references (root : Node) : List Node :=
  root.walk.filter (·.kind = .labelReference)

/-- An error at a node. -/
def notice (node : Node) (error : AssemblyError) : Notice :=
  AssemblyFault.notice ⟨error, node.location?⟩

/-- Definitions of labels that have been defined before. `seen` holds the lines of the first
    definitions. -/
def duplicateNotices (seen : List (String × Nat)) : List Node → List Notice
  | [] => []
  | node :: nodes =>
    match seen.lookup node.text with
    | some firstLine =>
      node.notice (.duplicateLabel node.text firstLine) :: duplicateNotices seen nodes
    | none => duplicateNotices ((node.text, node.line) :: seen) nodes

/-- Uses of labels that are never defined. -/
def undefinedNotices (root : Node) : List Notice :=
  let names := root.definitions.map Node.text
  (root.references.filter fun node => !names.contains node.text).map fun node =>
    node.notice (.undefinedLabel node.text)

/-- Labels that are not defined exactly once. -/
def nameNotices (root : Node) : List Notice :=
  duplicateNotices [] root.definitions ++ root.undefinedNotices

end Node

/-- The walk through a program that gives labels their addresses. -/
structure Binder where
  counter : Counter
  /-- Labels that wait for an address. -/
  pending : List Node
  /-- Labels with their addresses, the first at the head. -/
  bound : List (String × Word)
  /-- Labels that no address was found for. -/
  dangling : List Node

namespace Binder

/-- The walk in front of a program. -/
def start : Binder := ⟨.start, [], [], []⟩

/-- Whether labels in front of a node have its address. -/
def isAddressed : Node.Kind → Bool
  | .directive .orig => true
  | .directive directive => directive.isMemory
  | .instruction _ _ _ => true
  | _ => false

/-- Visits a node. A label at the end of a region has no address. -/
def visit (binder : Binder) (node : Node) : Binder :=
  let counter := binder.counter.step node
  match node.kind with
  | .labelDefinition => { binder with counter, pending := binder.pending ++ [node] }
  | .directive .endRegion =>
    { binder with counter, pending := [], dangling := binder.dangling ++ binder.pending }
  | kind =>
    if isAddressed kind then
      let named := binder.pending.map fun label => (label.text, counter.address)
      { binder with counter, pending := [], bound := binder.bound ++ named }
    else { binder with counter }

/-- Visits the statements of a program. Labels behind the last of them have no address. -/
def ofProgram (root : Node) : Binder :=
  let last := root.children.foldl visit start
  { last with pending := [], dangling := last.dangling ++ last.pending }

/-- The labels without an address. -/
def notices (binder : Binder) : List Notice :=
  binder.dangling.map fun label => label.notice (.unaddressedLabel label.text)

/-- The log records of the labels with an address. -/
def log (binder : Binder) : List LogRecord :=
  binder.bound.map fun (name, address) =>
    Stage.symbolResolution.record .trace "bound label"
      [("label", name), ("address", address.toHexLiteral)]

end Binder

/-- The symbol table of a program. Addresses are looked for only when every label is defined
    exactly once. -/
def SymbolTable.build (root : Node) : StageResult SymbolTable :=
  match root.nameNotices with
  | [] =>
    let binder := Binder.ofProgram root
    let table := SymbolTable.ofList binder.bound
    let finished :=
      if binder.dangling.isEmpty then
        [Stage.symbolResolution.record .debug "built symbol table"
          [("labels", toString table.size)]]
      else []
    ⟨table, binder.notices, binder.log ++ finished⟩
  | notices => ⟨.empty, notices, []⟩

end LC3
