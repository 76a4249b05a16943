import LC3.Text.Terminal

namespace LC3.Command

/-!
# Options of the command

Reads the arguments of the command line: a source, a place for the image, and options between them
in any order. `--` ends the options.

* `Request.ofArguments` — what the arguments ask for.
* `UsageError` — why they ask for nothing, with its wording.
-/

/-- The name of the command and its version. -/
def version : String := "lc3asm 0.1.0"

/-- How the command is used. -/
def usage : String := "Usage: lc3asm [OPTIONS] <INPUT> <OUTPUT>\n"

/-- What the command does and its options. -/
def help : String :=
  "Assembles LC-3 source into an object image\n\n" ++ usage ++
  "\nArguments:\n" ++
  "  <INPUT>   Assembly source (a `.asm` file, or `-` for stdin)\n" ++
  "  <OUTPUT>  Where to write the object image\n" ++
  "\nOptions:\n" ++
  "      --text        Write the image as hex text, one word per line, instead of binary\n" ++
  "  -v, --verbose...  Log more detail about each stage (repeat for more)\n" ++
  "  -h, --help        Print help\n" ++
  "  -V, --version     Print version\n"

/-- Where a source comes from. -/
inductive Input where
  /-- The standard input. -/
  | standard
  /-- A file. -/
  | file (path : String)
deriving DecidableEq

/-- What to assemble, and how. -/
structure Job where
  input : Input
  output : String
  /-- Whether the image is written as text. -/
  asText : Bool
  /-- How often more detail was asked for. -/
  verbosity : Nat
deriving DecidableEq

/-- What the arguments ask for. -/
inductive Request where
  | assemble (job : Job)
  | showVersion
  | showHelp
deriving DecidableEq

/-- Why arguments cannot be understood. -/
inductive UsageError where
  /-- There is no such option, or no room for one more argument. -/
  | unexpectedArgument (argument : String)
  /-- An option takes no value. -/
  | unexpectedValue (value option : String)
  /-- An option stands twice. -/
  | repeatedOption (option : String)
  /-- A source has to be a file of the right kind. -/
  | invalidInput (value : String)
  /-- The place for the image has no name. -/
  | emptyOutput
  /-- Arguments are missing. -/
  | missingArguments (names : List String)
deriving DecidableEq

namespace UsageError

/-- What is wrong. The arguments that are quoted stand in spans of their own, before the last span
    of the message. -/
def message : UsageError → List String × String
  | unexpectedArgument argument => (["unexpected argument '", argument], "' found")
  | unexpectedValue value option =>
    (["unexpected value '", value], s!"' for '{option}' found; no more were expected")
  | repeatedOption option => ([], s!"the argument '{option}' cannot be used multiple times")
  | invalidInput value =>
    (["invalid value '", value],
      s!"' for '<INPUT>': expected a path ending in .asm or `-`, got `{value}`")
  | emptyOutput => ([], "a value is required for '<OUTPUT>' but none was supplied")
  | missingArguments names =>
    ([], "the following required arguments were not provided:" ++
      String.join (names.map fun name => "\n  " ++ name))

/-- Whether the usage is shown too. It does not help with a value that is wrong. -/
def concernsUsage : UsageError → Bool
  | invalidInput _ | emptyOutput => false
  | _ => true

/-- The spans of the text that is shown. -/
def spans (error : UsageError) : List String :=
  let (quoted, last) := error.message
  let hint := if error.concernsUsage then usage ++ "\n" else ""
  ["error: "] ++ quoted ++ [last ++ "\n\n" ++ hint ++ "For more information, try '", "--help'.\n"]

/-- The text that is shown. Control sequences in arguments are left out; none of them reaches
    beyond its span. -/
def render (error : UsageError) : String :=
  String.join (error.spans.map Text.visible)

end UsageError

/-- The shape of an argument. -/
inductive Shape where
  /-- `--` alone. -/
  | separator
  /-- `--name` or `--name=value`. -/
  | long (name : String) (value? : Option String)
  /-- A dash and the letters of options. -/
  | short (letters : List Char)
  /-- Anything else; a dash alone is one of these. -/
  | plain

/-- The shape of an argument. -/
def Shape.ofArgument (argument : String) : Shape :=
  match argument.toList with
  | ['-', '-'] => .separator
  | '-' :: '-' :: text =>
    let name := String.ofList (text.takeWhile (· ≠ '='))
    match text.dropWhile (· ≠ '=') with
    | [] => .long name none
    | _ :: value => .long name (some (String.ofList value))
  | '-' :: c :: letters => .short (c :: letters)
  | _ => .plain

/-- What has been read of the arguments. The last argument that is no option waits until the next
    thing has been seen to be in order. -/
structure Reading where
  input? : Option Input
  output? : Option String
  waiting? : Option String
  asText : Bool
  verbosity : Nat

/-- Goes on reading, or has seen enough. -/
inductive Progress where
  | more (reading : Reading)
  | done (request : Request)

namespace Reading

/-- Nothing has been read. -/
def start : Reading := ⟨none, none, none, false, 0⟩

/-- The source that an argument names. -/
def readInput (value : String) : Except UsageError Input :=
  if value = "-" then .ok .standard
  else if ".asm".toList.isSuffixOf value.toList then .ok (.file value)
  else .error (.invalidInput value)

/-- Checks the argument that waits. -/
def settle (reading : Reading) : Except UsageError Reading :=
  match reading.waiting? with
  | none => .ok reading
  | some value =>
    match reading.input? with
    | none => return { reading with waiting? := none, input? := some (← readInput value) }
    | some _ =>
      if value.isEmpty then .error .emptyOutput
      else .ok { reading with waiting? := none, output? := some value }

/-- Whether two arguments that are no options have been read. -/
def isFull (reading : Reading) : Bool :=
  reading.input?.isSome && (reading.output?.isSome || reading.waiting?.isSome)

/-- Reads an argument that is no option. -/
def readPlain (reading : Reading) (argument : String) : Except UsageError Reading := do
  if reading.isFull then throw (.unexpectedArgument argument)
  let settled ← reading.settle
  return { settled with waiting? := some argument }

/-- Reads one of the options. -/
def readOption (reading : Reading) (letter : Char) : Except UsageError Progress := do
  let settled ← reading.settle
  match letter with
  | 'v' => return .more { settled with verbosity := settled.verbosity + 1 }
  | 'V' => return .done .showVersion
  | _ => return .done .showHelp

/-- Reads the option that asks for text. -/
def readText (reading : Reading) : Except UsageError Progress := do
  let settled ← reading.settle
  if settled.asText then throw (.repeatedOption "--text")
  return .more { settled with asText := true }

/-- Reads an option that is written out. -/
def readLong (reading : Reading) (name : String) (value? : Option String) :
    Except UsageError Progress :=
  match name, value? with
  | "text", none => reading.readText
  | "verbose", none => reading.readOption 'v'
  | "version", none => reading.readOption 'V'
  | "help", none => reading.readOption 'h'
  | "verbose", some value => .error (.unexpectedValue value "--verbose...")
  | "text", some value => .error (.unexpectedValue value "--text")
  | "version", some value => .error (.unexpectedValue value "--version")
  | "help", some value => .error (.unexpectedValue value "--help")
  | name, _ => .error (.unexpectedArgument ("--" ++ name))

/-- Reads options that are written as letters. -/
def readLetters (reading : Reading) : List Char → Except UsageError Progress
  | [] => return .more reading
  | letter :: letters =>
    if letter = 'v' ∨ letter = 'V' ∨ letter = 'h' then do
      match ← reading.readOption letter with
      | .more next => next.readLetters letters
      | .done request => return .done request
    else .error (.unexpectedArgument (String.ofList ['-', letter]))

/-- What has been read, when there are no more arguments. -/
def finish (reading : Reading) : Except UsageError Request := do
  let settled ← reading.settle
  match settled.input?, settled.output? with
  | some input, some output =>
    return .assemble ⟨input, output, settled.asText, settled.verbosity⟩
  | some _, none => throw (.missingArguments ["<OUTPUT>"])
  | none, _ => throw (.missingArguments ["<INPUT>", "<OUTPUT>"])

/-- Reads arguments. `plainOnly` tells that the options have ended. -/
def readAll (reading : Reading) (plainOnly : Bool) : List String → Except UsageError Request
  | [] => reading.finish
  | argument :: arguments =>
    if plainOnly then do (← reading.readPlain argument).readAll true arguments
    else do
      let progress ← match Shape.ofArgument argument with
        | .separator => return (← reading.readAll true arguments)
        | .long name value? => reading.readLong name value?
        | .short letters => reading.readLetters letters
        | .plain => Progress.more <$> reading.readPlain argument
      match progress with
      | .more next => next.readAll false arguments
      | .done request => return request

end Reading

/-- What some arguments ask for. -/
def Request.ofArguments (arguments : List String) : Except UsageError Request :=
  Reading.start.readAll false arguments

end LC3.Command
