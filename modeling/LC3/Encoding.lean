import LC3.Arguments
import LC3.Breach
import LC3.Image
import LC3.SymbolTable

namespace LC3

/-!
# Encoding

Packs the operands of statements into words. The counter gives the address behind an instruction,
from which distances to other addresses are measured.

* `Address.resolve` — the address that an operand stands for.
* `Mnemonic.encode` — the word of an instruction with typed operands.
* `Node.emit` — the words of a statement.
* `Node.encode` — the image of a program.
-/

/-- Why a statement has no words. -/
inductive EncodingError where
  /-- Something is wrong with the statement. -/
  | fault (fault : AssemblyFault)
  /-- The tree is not one that can be encoded. -/
  | breach (breach : Breach)
deriving DecidableEq

/-- The width of an immediate operand of `ADD` and `AND`. -/
def Width.immediate : Width := ⟨5, by decide, by decide⟩

/-- The width of the offset of `LDR` and `STR`. -/
def Width.baseOffset : Width := ⟨6, by decide, by decide⟩

/-- The width of a trap vector. -/
def Width.trapVector : Width := ⟨8, by decide, by decide⟩

/-- The width of most distances. -/
def Width.distance : Width := ⟨9, by decide, by decide⟩

/-- The width of the distance of a jump. -/
def Width.jumpDistance : Width := ⟨11, by decide, by decide⟩

/-- The address that an operand stands for. -/
def Address.resolve (address : Address) (symbols : SymbolTable) : Except EncodingError Word :=
  match address with
  | literal value _ => .ok value
  | label name location? =>
    match symbols.lookup name with
    | some value => .ok value
    | none => .error (.fault ⟨.undefinedLabel name, location?⟩)

/-- A field with the distance from the next statement to an address. -/
def Address.distance (target : Address) (width : Width) (next : Word) (symbols : SymbolTable) :
    Except EncodingError Word := do
  let address ← target.resolve symbols
  match Field.ofWord .signed width (address - next) with
  | .ok field => return field.packed
  | .error range =>
    .error (.fault ⟨.offsetOutOfRange (address - next).toInt range, target.location?⟩)

/-- A field with a number as it is written. -/
def Literal.pack (literal : Literal) (signedness : Signedness) (width : Width) :
    Except EncodingError Word :=
  match Field.ofWord signedness width literal.value with
  | .ok field => .ok field.packed
  | .error range =>
    .error (.fault
      ⟨.immediateOutOfRange (signedness.read literal.value) range, literal.location?⟩)

/-- The number of a register in the field that starts at a bit. -/
def Register.packAt (register : Register) (bit : Nat) : Word :=
  register.number.setWidth 16 <<< bit

/-- The flags of a branch in their field. -/
def Flags.pack (flags : Flags) : Word :=
  flags.bits.setWidth 16 <<< 9

namespace Mnemonic

/-- The field of a number behind two registers: an immediate operand with the bit that tells it
    from a register, or an offset. -/
def packNumber (mnemonic : Mnemonic) (number : Literal) : Except EncodingError Word :=
  match mnemonic with
  | add | and => return 0x20#16 ||| (← number.pack .signed .immediate)
  | _ => number.pack .signed .baseOffset

/-- The operands of an instruction in their fields. `next` is the address behind it. -/
def packOperands (mnemonic : Mnemonic) (next : Word) (symbols : SymbolTable) :
    Arguments → Except EncodingError Word
  | .empty => return 0#16
  | .register register => return register.packAt 6
  | .address target => target.distance .jumpDistance next symbols
  | .branch flags target => return flags.pack ||| (← target.distance .distance next symbols)
  | .vector vector => vector.pack .unsigned .trapVector
  | .registers first second => return first.packAt 9 ||| second.packAt 6
  | .registerAddress register target =>
    return register.packAt 9 ||| (← target.distance .distance next symbols)
  | .threeRegisters first second third =>
    return first.packAt 9 ||| second.packAt 6 ||| third.packAt 0
  | .registersNumber first second number =>
    return first.packAt 9 ||| second.packAt 6 ||| (← mnemonic.packNumber number)
  | operands => .error (.breach (.foreignFormat operands.format))

/-- The word of an instruction. -/
def encode (mnemonic : Mnemonic) (next : Word) (symbols : SymbolTable) (operands : Arguments) :
    Except EncodingError Word :=
  return mnemonic.word ||| (← mnemonic.packOperands next symbols operands)

end Mnemonic

/-- The words of a string: one for each character, and a zero. -/
def stringWords (text : String) : List Word :=
  text.toList.map (fun c => BitVec.ofNat 16 c.toNat) ++ [0#16]

/-- The words of a directive. `.ORIG` gives the load address. -/
def Directive.encode (directive : Directive) (symbols : SymbolTable) (operands : Arguments) :
    Except EncodingError (List Word) :=
  match directive, operands with
  | .orig, .number origin => return [origin.value]
  | .fill, .address value => return [← value.resolve symbols]
  | .blkw, .number count => return List.replicate count.value.toNat 0#16
  | .blkw, .numberAddress count value =>
    return List.replicate count.value.toNat (← value.resolve symbols)
  | .stringz, .string text => return stringWords text
  | .endRegion, .empty => return []
  | _, operands => .error (.breach (.foreignFormat operands.format))

namespace Node

/-- The operands of an instruction: in the format that is recorded, if they have it, and else in
    the first that they have. -/
def instructionArguments? (node : Node) (mnemonic : Mnemonic) (format? : Option Format) :
    Option Arguments :=
  match format?.bind (·.read? node.children) with
  | some operands => some operands
  | none => Format.readFirst? mnemonic.formats node.children

/-- The words of a directive with the operands of this node. -/
def emitDirective (node : Node) (directive : Directive) (symbols : SymbolTable) :
    Except EncodingError (List Word) :=
  match Format.readFirst? directive.formats node.children with
  | some operands => directive.encode symbols operands
  | none =>
    .error (.fault ⟨.ofFormats (toString directive) directive.formats, node.location?⟩)

/-- The words of a statement, at a counter. -/
def emit (node : Node) (counter : Counter) (symbols : SymbolTable) :
    Except EncodingError (List Word) :=
  match node.kind with
  | .instruction mnemonic format? _ =>
    match node.instructionArguments? mnemonic format? with
    | some operands => return [← mnemonic.encode counter.next symbols operands]
    | none => .error (.fault ⟨.ofFormats node.text mnemonic.formats, node.location?⟩)
  | .directive directive => node.emitDirective directive symbols
  | _ => return []

/-- The log record of a statement that has been encoded; directives have none. -/
def emitLog (node : Node) (counter : Counter) (words : List Word) : List LogRecord :=
  match node.kind with
  | .instruction _ _ _ => words.map fun word =>
      Stage.encoding.record .trace "encoded instruction"
        [("address", counter.address.toHexLiteral), ("word", word.toHexLiteral)]
  | _ => []

/-- The words, errors and log records of some statements, with the counter in front of them. -/
def emitAll (symbols : SymbolTable) (counter : Counter) :
    List Node → Except Breach (StageResult (List Word))
  | [] => return ⟨[], [], []⟩
  | node :: nodes => do
    let here := counter.step node
    let rest ← emitAll symbols here nodes
    match node.emit here symbols with
    | .ok words =>
      return ⟨words ++ rest.product, rest.notices, node.emitLog here words ++ rest.log⟩
    | .error (.fault fault) => return { rest with notices := fault.notice :: rest.notices }
    | .error (.breach breach) => .error breach

/-- Encodes a program. -/
def encode (root : Node) (symbols : SymbolTable) : Except Breach (StageResult Image) := do
  let result ← emitAll symbols .start root.children
  let finished :=
    if result.notices.isEmpty then
      [Stage.encoding.record .debug "encoded image" [("words", toString result.product.length)]]
    else []
  return ⟨⟨result.product⟩, result.notices, result.log ++ finished⟩

end Node

end LC3
