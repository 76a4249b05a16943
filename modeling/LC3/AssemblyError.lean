import LC3.Directive
import LC3.Field
import LC3.Location

namespace LC3

/-!
# Assembly errors

Why a program that can be read cannot be assembled, with the wording of each reason.
-/

/-- A reason why a program cannot be assembled. -/
inductive AssemblyError where
  /-- An instruction stands outside every region. -/
  | instructionOutsideRegion
  /-- A directive that places words stands outside every region. -/
  | memoryOutsideRegion (directive : Directive)
  /-- A region is opened inside another one. -/
  | nestedOrigin
  /-- A region is closed that was never opened. -/
  | unopenedEnd
  /-- A region is never closed; this alone is only a warning. -/
  | unclosedOrigin
  /-- The operands of a statement have none of its formats. -/
  | noMatchingFormat (name : String) (candidates : List String)
  /-- A label is defined again. -/
  | duplicateLabel (name : String) (firstLine : Nat)
  /-- A label is used and never defined. -/
  | undefinedLabel (name : String)
  /-- No statement follows a label that has an address. -/
  | unaddressedLabel (name : String)
  /-- The distance to an address does not fit its field. -/
  | offsetOutOfRange (offset : Int) (range : RangeError)
  /-- A number does not fit its field. -/
  | immediateOutOfRange (value : Int) (range : RangeError)
deriving DecidableEq

namespace AssemblyError

/-- The operands of a statement with a given name have none of the given formats. -/
def ofFormats (name : String) (formats : List Format) : AssemblyError :=
  noMatchingFormat name (formats.map (·.display name))

/-- What is wrong. -/
def message : AssemblyError → String
  | instructionOutsideRegion => "instruction is not inside an .orig/.end block"
  | memoryOutsideRegion directive => s!"{directive} is not inside an .orig/.end block"
  | nestedOrigin => "cannot have an .orig inside another region"
  | unopenedEnd => ".end does not have associated .orig"
  | unclosedOrigin => ".orig directive was never closed"
  | noMatchingFormat name _ => s!"invalid operands for {name}"
  | duplicateLabel name _ => s!"label `{name}` was defined multiple times"
  | undefinedLabel name => s!"label `{name}` is not defined"
  | unaddressedLabel name => s!"label `{name}` does not point to any memory"
  | offsetOutOfRange offset range =>
    s!"offset {offset} does not fit in {range.fieldDescription} field"
  | immediateOutOfRange value range =>
    s!"value {value} does not fit in {range.fieldDescription} field"

/-- How it might be mended. -/
def help : AssemblyError → String
  | instructionOutsideRegion => "try moving this statement inside of an .orig/.end block"
  | memoryOutsideRegion _ => "try moving this statement inside of an .orig/.end block"
  | nestedOrigin => "try adding an .end directive at the end of the outer .orig block"
  | unopenedEnd => "try adding an .orig directive at the beginning of this block"
  | unclosedOrigin => "try adding an .end directive at the end of this block"
  | noMatchingFormat _ candidates =>
    "valid formats are: " ++ ", ".intercalate (candidates.map fun c => "`" ++ c ++ "`")
  | duplicateLabel _ firstLine =>
    s!"first defined on line {firstLine}; labels must be unique within a file"
  | undefinedLabel _ => "try defining this label before an instruction or directive"
  | unaddressedLabel _ => "try moving this label before an instruction or memory directive"
  | offsetOutOfRange _ range => s!"the target is too far from this instruction; {range.help}"
  | immediateOutOfRange _ range => range.help

/-- The error of a field that stands behind this one. -/
def range? : AssemblyError → Option RangeError
  | offsetOutOfRange _ range => some range
  | immediateOutOfRange _ range => some range
  | _ => none

end AssemblyError

/-- An assembly error and where it occurs, if it comes from a place in a source. -/
structure AssemblyFault where
  error : AssemblyError
  location? : Option Location
deriving DecidableEq

end LC3
