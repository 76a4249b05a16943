import LC3.Command

/-!
# The program

Runs the command on the machine.
-/

namespace LC3.Command

/-- Why an action of the machine has failed. -/
def SystemError.ofError (error : IO.Error) : SystemError :=
  match error with
  | .noFileOrDirectory _ _ _ => .notFound
  | .permissionDenied _ _ _ => .permissionDenied
  | .inappropriateType _ 20 _ => .notADirectory
  | .inappropriateType _ 21 _ => .isADirectory
  | .invalidArgument _ 36 _ => .nameTooLong
  | error => .other (toString error)

/-- Does an action and keeps its error. -/
def attempt {α : Type} (action : IO α) : IO (Except SystemError α) := do
  try
    return .ok (← action)
  catch error =>
    return .error (.ofError error)

/-- Reads a stream to its end. -/
partial def readToEnd (stream : IO.FS.Stream) (bytes : ByteArray) : IO ByteArray := do
  let more ← stream.read 65536
  if more.isEmpty then return bytes else readToEnd stream (bytes ++ more)

/-- The actions of the machine. -/
def machine : System IO where
  readInput := attempt do
    return (← readToEnd (← IO.getStdin) .empty).toList
  readSource path := attempt do
    return (← IO.FS.readBinFile path).toList
  writeImage path contents := attempt do
    IO.FS.writeBinFile path ⟨contents.toArray⟩
  tell text := IO.print text
  warn text := IO.eprint text

end LC3.Command

/-- Runs the command. -/
def main (arguments : List String) : IO UInt32 :=
  LC3.Command.run LC3.Command.machine arguments
