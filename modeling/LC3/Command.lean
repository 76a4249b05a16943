import LC3.Assembly
import LC3.Command.Options
import LC3.Command.System
import LC3.Image.Binary
import LC3.Image.HexText
import LC3.Text.Latin1

namespace LC3.Command

/-!
# The command

Assembles a source and writes its image. Every byte of a source is one character. All that is found
is shown on the standard error output; the image is written only when there are no errors.
-/

variable {m : Type → Type} [Monad m]

/-- The name of an input in messages. -/
def Input.describe : Input → String
  | standard => "stdin"
  | file path => path

/-- Reads an input. -/
def Input.read (input : Input) (system : System m) : m (Except SystemError (List UInt8)) :=
  match input with
  | standard => system.readInput
  | file path => system.readSource path

namespace Job

/-- The bytes of an image in the format that is asked for. -/
def imageBytes (job : Job) (image : Image) : List UInt8 :=
  if job.asText then image.toText.toUTF8.toList else image.toBytes

/-- Shows the log records that are asked for, and the diagnostics. -/
def showFindings (job : Job) (system : System m) (assembly : Assembly) : m Unit := do
  let shown := assembly.log.filter fun record => record.level.verbosity ≤ job.verbosity
  unless shown.isEmpty do
    system.warn (String.join (shown.map LogRecord.render))
  unless assembly.diagnostics.isEmpty do
    system.warn assembly.diagnostics.render

/-- Writes an image and says so. -/
def writeOutput (job : Job) (system : System m) (diagnostics : Diagnostics) (image : Image) :
    m UInt32 := do
  match ← system.writeImage job.output (job.imageBytes image) with
  | .error error =>
    system.warn s!"error: could not write {job.output}: {error.message}\n"
    return 1
  | .ok () =>
    system.warn
      s!"assembled {image.size} word(s) with {diagnostics.warningCount} warning(s)\n"
    return 0

/-- Assembles the bytes of a source. -/
def assembleBytes (job : Job) (system : System m) (bytes : List UInt8) : m UInt32 := do
  match assemble (String.ofList (Text.decodeLatin1 bytes)) .empty with
  | .error _ =>
    system.warn "error: internal error\n"
    return 101
  | .ok assembly =>
    job.showFindings system assembly
    let diagnostics := assembly.diagnostics
    match assembly.outcome with
    | .ok image => job.writeOutput system diagnostics image
    | .error failure =>
      let errors := diagnostics.errorCount
      let warnings := diagnostics.warningCount
      system.warn s!"{failure.message}: {errors} error(s), {warnings} warning(s)\n"
      return 1

/-- Does a job, and gives the exit status. -/
def run (job : Job) (system : System m) : m UInt32 := do
  match ← job.input.read system with
  | .error error =>
    system.warn s!"error: could not read {job.input.describe}: {error.message}\n"
    return 1
  | .ok bytes => job.assembleBytes system bytes

end Job

/-- Runs the command with some arguments, and gives the exit status. -/
def run (system : System m) (arguments : List String) : m UInt32 := do
  match Request.ofArguments arguments with
  | .error error =>
    system.warn error.render
    return 2
  | .ok .showVersion =>
    system.tell (version ++ "\n")
    return 0
  | .ok .showHelp =>
    system.tell help
    return 0
  | .ok (.assemble job) => job.run system

end LC3.Command
