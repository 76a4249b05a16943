import LC3.AssemblyError
import LC3.SyntaxError

namespace LC3

/-!
# Problems

Everything that can be reported to the author of a source, with one wording for each. A notice is a
problem with its severity and its place.
-/

/-- Something to report. -/
inductive Problem where
  /-- A line cannot be read. -/
  | syntactic (error : SyntaxError)
  /-- A program cannot be assembled. -/
  | assembly (error : AssemblyError)
  /-- A value does not fit a field. -/
  | range (error : RangeError)
  /-- A remark in free words. -/
  | remark (message : String) (help? : Option String)
deriving DecidableEq

namespace Problem

/-- What is wrong. -/
def message : Problem → String
  | syntactic error => error.message
  | assembly error => error.message
  | range error => error.message
  | remark message _ => message

/-- How it might be mended. -/
def help? : Problem → Option String
  | syntactic error => error.help?
  | assembly error => some error.help
  | range error => some error.help
  | remark _ help? => help?

/-- The message of the error that stands behind this one. -/
def reason? : Problem → Option String
  | assembly error => error.range?.map RangeError.message
  | _ => none

end Problem

/-- How serious a problem is. -/
inductive Severity where
  /-- Nothing is assembled. -/
  | error
  /-- Assembly goes on. -/
  | warning
deriving DecidableEq

instance : ToString Severity where
  toString
    | .error => "error"
    | .warning => "warning"

/-- A problem that has been found, before the line it is on is looked up. -/
structure Notice where
  severity : Severity
  problem : Problem
  location? : Option Location
deriving DecidableEq

/-- The notice of a syntax error. -/
def SyntaxFault.notice (fault : SyntaxFault) : Notice :=
  ⟨.error, .syntactic fault.error, some fault.location⟩

/-- The notice of an assembly error. -/
def AssemblyFault.notice (fault : AssemblyFault) : Notice :=
  ⟨.error, .assembly fault.error, fault.location?⟩

namespace Notice

/-- Whether a notice is an error. -/
def isError (notice : Notice) : Bool :=
  notice.severity = .error

end Notice

end LC3
