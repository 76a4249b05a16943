import LC3.Breach
import LC3.Problem

namespace LC3

/-!
# Diagnostics

A diagnostic is a notice in words, with the line of source that it points at. Diagnostics are
collected in the order in which problems are found; their text shows each with its line and a caret
under the place.

* `Notice.diagnose` — puts a notice into words.
* `Diagnostic.render` — the text of one diagnostic.
* `Diagnostics.add` — adds a diagnostic to a collection, which counts it.
* `Diagnostics.record` — adds notices to a collection.
-/

/-- The place of a diagnostic, with the text of its line. -/
structure Diagnostic.Place where
  /-- The line, counted from one. -/
  line : Nat
  /-- The bytes before the place on its line. -/
  column : Nat
  /-- The text of the line. -/
  sourceLine : String
deriving DecidableEq

/-- A problem in words. -/
structure Diagnostic where
  severity : Severity
  message : String
  help? : Option String
  place? : Option Diagnostic.Place
deriving DecidableEq

/-- The place of a location in its source. -/
def Location.place (location : Location) (source : String) : Except Breach Diagnostic.Place :=
  match location.lineText? source with
  | some text => .ok ⟨location.line, location.column, text⟩
  | none => .error (.misplacedLocation location.offset)

/-- Puts a notice about a source into words. -/
def Notice.diagnose (source : String) (notice : Notice) : Except Breach Diagnostic :=
  match notice.location? with
  | none => .ok ⟨notice.severity, notice.problem.message, notice.problem.help?, none⟩
  | some location => do
    let place ← location.place source
    return ⟨notice.severity, notice.problem.message, notice.problem.help?, some place⟩

namespace Diagnostic

/-- What stands in front of the caret: one character for each character of the line that starts
    before the column, and tabs under tabs. -/
def indent : Nat → List Char → List Char
  | 0, _ => []
  | _ + 1, [] => []
  | column + 1, c :: text =>
    (if c = '\t' then '\t' else ' ') :: indent (column + 1 - c.utf8Size) text

/-- The lines that show a place. -/
def Place.render (place : Place) : String :=
  let number := toString place.line
  let margin := "".pushn ' ' number.length
  let position := toString (place.column + 1)
  let caret := String.ofList (indent place.column place.sourceLine.toList)
  s!"{margin}--> {number}:{position}\n{margin} |\n{number} | {place.sourceLine}\n" ++
    s!"{margin} | {caret}^\n"

/-- The text of a diagnostic. -/
def render (diagnostic : Diagnostic) : String :=
  let place :=
    match diagnostic.place? with
    | some place => place.render
    | none => ""
  let help :=
    match diagnostic.help? with
    | some help => s!"  = help: {help}\n"
    | none => ""
  s!"{diagnostic.severity}: {diagnostic.message}\n" ++ place ++ help

end Diagnostic

/-- Diagnostics in the order in which they were recorded, and how many of them there are of each
    severity. -/
structure Diagnostics where
  entries : List Diagnostic
  /-- The number of errors. -/
  errorCount : Nat
  /-- The number of warnings. -/
  warningCount : Nat
  errorCount_eq : errorCount = entries.countP (·.severity = .error)
  warningCount_eq : warningCount = entries.countP (·.severity = .warning)
deriving DecidableEq

namespace Diagnostics

/-- No diagnostics. -/
def empty : Diagnostics := ⟨[], 0, 0, rfl, rfl⟩

/-- Adds one diagnostic, and counts it. -/
def add (diagnostics : Diagnostics) (diagnostic : Diagnostic) : Diagnostics where
  entries := diagnostics.entries ++ [diagnostic]
  errorCount :=
    match diagnostic.severity with
    | .error => diagnostics.errorCount + 1
    | .warning => diagnostics.errorCount
  warningCount :=
    match diagnostic.severity with
    | .error => diagnostics.warningCount
    | .warning => diagnostics.warningCount + 1
  errorCount_eq := by
    rw [List.countP_append, ← diagnostics.errorCount_eq, List.countP_singleton]
    split <;> simp [*]
  warningCount_eq := by
    rw [List.countP_append, ← diagnostics.warningCount_eq, List.countP_singleton]
    split <;> simp [*]

/-- Adds notices about a source. -/
def record (diagnostics : Diagnostics) (source : String) (notices : List Notice) :
    Except Breach Diagnostics :=
  notices.foldlM (fun recorded notice => return recorded.add (← notice.diagnose source)) diagnostics

/-- Whether there is an error. -/
def hasErrors (diagnostics : Diagnostics) : Bool :=
  0 < diagnostics.errorCount

/-- Whether nothing was recorded. -/
def isEmpty (diagnostics : Diagnostics) : Bool :=
  diagnostics.entries.isEmpty

/-- The messages of the errors. -/
def errorMessages (diagnostics : Diagnostics) : List String :=
  (diagnostics.entries.filter (·.severity = .error)).map Diagnostic.message

/-- The text of all diagnostics, an empty line behind each. -/
def render (diagnostics : Diagnostics) : String :=
  String.join (diagnostics.entries.map fun diagnostic => diagnostic.render ++ "\n")

end Diagnostics

end LC3
