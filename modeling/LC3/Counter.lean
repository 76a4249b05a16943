import LC3.Node

namespace LC3

/-!
# The location counter

Keeps the address of a statement while a program is walked. Both the addresses of labels and the
words of instructions are found with it, so they agree.
-/

namespace Node

/-- The number of words that a statement takes, modulo the size of memory. -/
def wordCount (node : Node) : Word :=
  match node.kind with
  | .instruction _ _ _ => 1#16
  | .directive .fill => 1#16
  | .directive .blkw =>
    match node.children.head?.map Node.kind with
    | some (.number value) => value
    | _ => 0#16
  | .directive .stringz =>
    match node.children.head?.map Node.kind with
    | some (.string text) => BitVec.ofNat 16 text.length + 1#16
    | _ => 0#16
  | _ => 0#16

end Node

/-- The address of a statement, and that of the one behind it. -/
structure Counter where
  address : Word
  next : Word
deriving DecidableEq

namespace Counter

/-- The counter in front of a program. -/
def start : Counter := ⟨0#16, 0#16⟩

/-- Moves the counter to a statement. `.ORIG` sets it to its operand, and what is no statement
    leaves it alone. -/
def step (counter : Counter) (node : Node) : Counter :=
  match node.kind with
  | .directive .orig =>
    match node.children.head?.map Node.kind with
    | some (.number origin) => ⟨origin, origin⟩
    | _ => counter
  | .instruction _ _ _ => ⟨counter.next, counter.next + node.wordCount⟩
  | .directive _ => ⟨counter.next, counter.next + node.wordCount⟩
  | _ => counter

/-- The counter at each of some statements. -/
def trace (counter : Counter) : List Node → List Counter
  | [] => []
  | node :: nodes => counter.step node :: (counter.step node).trace nodes

end Counter

end LC3
