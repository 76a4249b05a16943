import LC3.Node

namespace LC3

/-!
# Arguments

The children of a statement, read in one of its formats. `Format.read?` checks and reads at once,
so that what comes later works on typed operands; `Format.isSome_read?` says that it succeeds
exactly for the lists that `Format.fits` accepts by class.
-/

/-- A number operand and where it stands. -/
structure Literal where
  value : Word
  location? : Option Location
deriving DecidableEq

/-- An address operand and where it stands. -/
inductive Address where
  | literal (value : Word) (location? : Option Location)
  | label (name : String) (location? : Option Location)
deriving DecidableEq

namespace Address

/-- Where an address operand stands. -/
def location? : Address → Option Location
  | literal _ location? => location?
  | label _ location? => location?

end Address

/-- The operands of a statement, for each format. -/
inductive Arguments where
  | empty
  | register (register : Register)
  | number (number : Literal)
  | string (value : String)
  | address (address : Address)
  | branch (flags : Flags) (target : Address)
  | vector (vector : Literal)
  | numberAddress (number : Literal) (address : Address)
  | registers (first second : Register)
  | registerAddress (register : Register) (address : Address)
  | threeRegisters (first second third : Register)
  | registersNumber (first second : Register) (number : Literal)
deriving DecidableEq

/-- The format of some operands. -/
def Arguments.format : Arguments → Format
  | empty => .empty
  | register _ => .register
  | number _ => .number
  | string _ => .string
  | address _ => .address
  | branch _ _ => .branch
  | vector _ => .vector
  | numberAddress _ _ => .numberAddress
  | registers _ _ => .registers
  | registerAddress _ _ => .registerAddress
  | threeRegisters _ _ _ => .threeRegisters
  | registersNumber _ _ _ => .registersNumber

/-- Whether a node is an operand of a class. -/
def Operand.accepts : Operand → Node.Kind → Bool
  | .register, .register _ => true
  | .number, .number _ => true
  | .string, .string _ => true
  | .address, .number _ => true
  | .address, .labelReference => true
  | .flags, .flags _ => true
  | _, _ => false

namespace Node

/-- The register of a register operand. -/
def register? (node : Node) : Option Register :=
  match node.kind with
  | .register register => some register
  | _ => none

/-- The number of a number operand. -/
def literal? (node : Node) : Option Literal :=
  match node.kind with
  | .number value => some ⟨value, node.location?⟩
  | _ => none

/-- The text of a string operand. -/
def string? (node : Node) : Option String :=
  match node.kind with
  | .string value => some value
  | _ => none

/-- The address of an address operand. -/
def address? (node : Node) : Option Address :=
  match node.kind with
  | .number value => some (.literal value node.location?)
  | .labelReference => some (.label node.text node.location?)
  | _ => none

/-- The flags of a flags operand. -/
def flags? (node : Node) : Option Flags :=
  match node.kind with
  | .flags flags => some flags
  | _ => none

/-- A node can be read as a register exactly if it is of that class. -/
theorem isSome_register? (node : Node) :
    node.register?.isSome = Operand.register.accepts node.kind := by
  unfold register?; cases node.kind <;> rfl

/-- A node can be read as a literal exactly if it is of the class of numbers. -/
theorem isSome_literal? (node : Node) :
    node.literal?.isSome = Operand.number.accepts node.kind := by
  unfold literal?; cases node.kind <;> rfl

/-- A node can be read as a text exactly if it is of the class of strings. -/
theorem isSome_string? (node : Node) :
    node.string?.isSome = Operand.string.accepts node.kind := by
  unfold string?; cases node.kind <;> rfl

/-- A node can be read as an address exactly if it is of that class, as a number or as a label. -/
theorem isSome_address? (node : Node) :
    node.address?.isSome = Operand.address.accepts node.kind := by
  unfold address?; cases node.kind <;> rfl

/-- A node can be read as flags exactly if it is of that class. -/
theorem isSome_flags? (node : Node) :
    node.flags?.isSome = Operand.flags.accepts node.kind := by
  unfold flags?; cases node.kind <;> rfl

end Node

namespace Format

/-- Whether a list of operand classes is that of a list of nodes. -/
def fitsClasses : List Operand → List Node → Bool
  | [], [] => true
  | operand :: operands, node :: nodes => operand.accepts node.kind && fitsClasses operands nodes
  | _, _ => false

/-- Whether a list of nodes has the operands of a format, in number and in class. -/
def fits (format : Format) (nodes : List Node) : Bool :=
  fitsClasses format.operands nodes

/-- The operands of a list of nodes that has a format. -/
def read? : Format → List Node → Option Arguments
  | .empty, [] => some .empty
  | .register, [a] => return .register (← a.register?)
  | .number, [a] => return .number (← a.literal?)
  | .string, [a] => return .string (← a.string?)
  | .address, [a] => return .address (← a.address?)
  | .branch, [a, b] => return .branch (← a.flags?) (← b.address?)
  | .vector, [a] => return .vector (← a.literal?)
  | .numberAddress, [a, b] => return .numberAddress (← a.literal?) (← b.address?)
  | .registers, [a, b] => return .registers (← a.register?) (← b.register?)
  | .registerAddress, [a, b] => return .registerAddress (← a.register?) (← b.address?)
  | .threeRegisters, [a, b, c] =>
    return .threeRegisters (← a.register?) (← b.register?) (← c.register?)
  | .registersNumber, [a, b, c] =>
    return .registersNumber (← a.register?) (← b.register?) (← c.literal?)
  | _, _ => none

/-- Behind the last operand there is nothing left to be read. -/
private theorem isSome_bind_pure {α β : Type} (o : Option α) (f : α → β) :
    (o >>= fun a => (pure (f a) : Option β)).isSome = o.isSome := by
  cases o <;> rfl

/-- Reading operands one behind the other succeeds if each of them is read. -/
private theorem isSome_bind_and {α β : Type} (o : Option α) (f : α → Option β) (b : Bool)
    (h : ∀ a, (f a).isSome = b) : (o >>= f).isSome = (o.isSome && b) := by
  cases o with
  | none => rfl
  | some a => exact h a

/-- Reading succeeds exactly for the lists that have the format. -/
theorem isSome_read? (format : Format) (nodes : List Node) :
    (format.read? nodes).isSome = format.fits nodes := by
  rcases nodes with _ | ⟨a, _ | ⟨b, _ | ⟨c, _ | ⟨d, nodes⟩⟩⟩⟩ <;> cases format <;>
    simp only [read?, fits, operands, fitsClasses, ← Node.isSome_register?,
      ← Node.isSome_literal?, ← Node.isSome_string?, ← Node.isSome_address?, ← Node.isSome_flags?,
      Bool.and_true, Bool.and_false, isSome_bind_pure, Option.isSome_none, Option.isSome_some] <;>
    (repeat (refine isSome_bind_and _ _ _ fun _ => ?_)) <;>
    simp only [isSome_bind_pure]

/-- The operands of a list of nodes in the first of some formats that it has. -/
def readFirst? (formats : List Format) (nodes : List Node) : Option Arguments :=
  formats.findSome? (·.read? nodes)

end Format

end LC3
