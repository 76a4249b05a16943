import LC3.Keyword
import LC3.Register
import LC3.Token

namespace LC3

/-!
# Syntax trees

A node has a kind with its payload, the token it comes from, and children: the operands of a
statement, or the statements and labels of a program.

* `Node.walk` — a node and all nodes below it, parents first.
* `Node.size` — how many nodes that are.
-/

/-- What a node is. -/
inductive Node.Kind where
  /-- The top of a tree. -/
  | root
  /-- An instruction. Its format is recorded once it is known, and a branch has its flags. -/
  | instruction (mnemonic : Mnemonic) (format? : Option Format) (flags? : Option Flags)
  /-- A directive. -/
  | directive (directive : Directive)
  /-- The definition of a label; the text of the token is its name. -/
  | labelDefinition
  /-- The use of a label; the text of the token is its name. -/
  | labelReference
  /-- A register operand. -/
  | register (register : Register)
  /-- A number. -/
  | number (value : Word)
  /-- A string with its escapes resolved. -/
  | string (value : String)
  /-- The flags of a branch. -/
  | flags (flags : Flags)
  /-- Nothing. -/
  | blank
deriving DecidableEq

/-- A node of a syntax tree. -/
structure Node where
  kind : Node.Kind
  token? : Option Token
  children : List Node

namespace Node

/-- A node without children. -/
def leaf (kind : Kind) (token : Token) : Node :=
  ⟨kind, some token, []⟩

/-- The top of a tree. -/
def root (children : List Node) : Node :=
  ⟨.root, none, children⟩

/-- The text of a node's token. -/
def text (node : Node) : String :=
  match node.token? with
  | some token => token.text
  | none => ""

/-- Where a node starts. -/
def location? (node : Node) : Option Location :=
  node.token?.map Token.location

/-- The line that a node starts on, or zero for a node from no token. -/
def line (node : Node) : Nat :=
  match node.location? with
  | some location => location.line
  | none => 0

/-- A node with more children. -/
def adopt (node : Node) (children : List Node) : Node :=
  { node with children := node.children ++ children }

mutual

/-- A node and all nodes below it, in source order. -/
def walk : Node → List Node
  | ⟨kind, token?, children⟩ => ⟨kind, token?, children⟩ :: walkAll children

/-- Some nodes and all nodes below them, in source order. -/
def walkAll : List Node → List Node
  | [] => []
  | node :: nodes => node.walk ++ walkAll nodes

end

/-- The number of nodes of a tree. -/
def size (node : Node) : Nat :=
  node.walk.length

end Node

end LC3
