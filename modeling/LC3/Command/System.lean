namespace LC3.Command

/-!
# What the command needs of its system

The command reads a source, writes an image and tells what it does. `System` lists these actions
for any monad, so that the command can run for real and can be reasoned about.
-/

/-- Why a file cannot be read or written. -/
inductive SystemError where
  | notFound
  | permissionDenied
  | notADirectory
  | isADirectory
  | nameTooLong
  | other (message : String)
deriving DecidableEq

namespace SystemError

/-- What is wrong. -/
def message : SystemError → String
  | notFound => "No such file or directory (os error 2)"
  | permissionDenied => "Permission denied (os error 13)"
  | notADirectory => "Not a directory (os error 20)"
  | isADirectory => "Is a directory (os error 21)"
  | nameTooLong => "File name too long (os error 36)"
  | other message => message

end SystemError

/-- The actions of a system. -/
structure System (m : Type → Type) where
  /-- Reads the standard input to its end. -/
  readInput : m (Except SystemError (List UInt8))
  /-- Reads a file. -/
  readSource : String → m (Except SystemError (List UInt8))
  /-- Creates a file or replaces its contents. -/
  writeImage : String → List UInt8 → m (Except SystemError Unit)
  /-- Writes to the standard output. -/
  tell : String → m Unit
  /-- Writes to the standard error output. -/
  warn : String → m Unit

end LC3.Command
