import LC3.Command.Path
import LC3.Command.System

namespace LC3.Command

/-!
# Disks

A system without a machine: directories and files in memory, an input, and what has been written to
the two outputs. A place is given by the names that lead to it from the root.

* `Disk.locate` — the place that a path leads to.
* `Disk.read`, `Disk.write` — what becomes of a file.
* `Disk.system` — the actions of a disk.
* `Disk.ofFolder`, `Disk.folder` — a disk by the files of its working directory.
-/

/-- The names from the root to a directory or file. -/
abbrev Place := List String

/-- Directories and files in memory, with an input and two outputs. -/
structure Disk where
  files : List (Place × List UInt8)
  /-- Directories that exist whether there are files below them or not. -/
  directories : List Place
  /-- The working directory. -/
  here : Place
  input : List UInt8
  told : String
  warned : String
deriving DecidableEq

namespace Disk

/-- The contents of a file. -/
def contents? (disk : Disk) (place : Place) : Option (List UInt8) :=
  disk.files.lookup place

/-- Whether there is a directory at a place. What lies above a directory or a file is one. -/
def isDirectory (disk : Disk) (place : Place) : Bool :=
  (disk.here :: disk.directories).any (place.isPrefixOf ·) ||
    disk.files.any fun (file, _) => place.isPrefixOf file && place ≠ file

/-- Goes from a directory into another one. The root has nothing above it. -/
def enter (disk : Disk) (place : Place) (name : String) : Except SystemError Place :=
  if name = "." then .ok place
  else if name = ".." then .ok place.dropLast
  else if Path.greatestNameLength < name.utf8ByteSize then .error .nameTooLong
  else if disk.isDirectory (place ++ [name]) then .ok (place ++ [name])
  else if (disk.contents? (place ++ [name])).isSome then .error .notADirectory
  else .error .notFound

/-- The place that a path leads to, whether there is a file or not, and whether the path is closed
    by a slash. -/
def locate (disk : Disk) (path : String) : Except SystemError (Place × Bool) := do
  if path.isEmpty then throw .notFound
  if Path.greatestLength < path.utf8ByteSize then throw .nameTooLong
  let ⟨absolute, names, closed⟩ := Path.ofString path
  match names.getLast? with
  | none => throw .isADirectory
  | some last =>
    let directory ← names.dropLast.foldlM disk.enter (if absolute then [] else disk.here)
    if Path.isRelative last then throw .isADirectory
    return (directory ++ [last], closed)

/-- The last name of a place may be too long, or it may be that of a directory. -/
def checkLast (disk : Disk) (place : Place) : Except SystemError Unit := do
  if place.getLast?.any fun name => Path.greatestNameLength < name.utf8ByteSize then
    throw .nameTooLong
  if disk.isDirectory place then throw .isADirectory

/-- Reads a file. -/
def read (disk : Disk) (path : String) : Except SystemError (List UInt8) := do
  let (place, closed) ← disk.locate path
  disk.checkLast place
  match disk.contents? place with
  | some contents => if closed then throw .notADirectory else return contents
  | none => throw .notFound

/-- Replaces the contents of a file. -/
def replace (place : Place) (contents : List UInt8) :
    List (Place × List UInt8) → List (Place × List UInt8)
  | [] => [(place, contents)]
  | (other, old) :: files =>
    if other = place then (place, contents) :: files
    else (other, old) :: replace place contents files

/-- Writes a file. A slash at the end of a path is for directories alone. -/
def write (disk : Disk) (path : String) (contents : List UInt8) : Except SystemError Disk := do
  let (place, closed) ← disk.locate path
  if closed then throw .isADirectory
  disk.checkLast place
  return { disk with files := replace place contents disk.files }

/-- The actions of a disk. -/
def system : System (StateM Disk) where
  readInput := return .ok (← get).input
  readSource path := return (← get).read path
  writeImage path contents := do
    match (← get).write path contents with
    | .ok disk =>
      set disk
      return .ok ()
    | .error error => return .error error
  tell text := modify fun disk => { disk with told := disk.told ++ text }
  warn text := modify fun disk => { disk with warned := disk.warned ++ text }

/-! ### The working directory -/

/-- The directories that are found at the root of every disk. -/
def standardDirectories : List Place :=
  [["bin"], ["boot"], ["dev"], ["etc"], ["home"], ["lib"], ["media"], ["mnt"], ["opt"], ["proc"],
    ["root"], ["run"], ["sbin"], ["srv"], ["sys"], ["tmp"], ["usr"], ["var"]]

/-- The file that takes whatever is written to it. -/
def sink : Place := ["dev", "null"]

/-- The working directory of a new disk. Its name is empty, so that no path leads down into it. -/
def workplace : Place := ["tmp", ""]

/-- A new disk with some files in its working directory. -/
def ofFolder (files : List (String × List UInt8)) (input : List UInt8) : Disk where
  files := (sink, []) ::
    files.map fun (path, contents) => (workplace ++ Path.namesOf path, contents)
  directories := standardDirectories
  here := workplace
  input := input
  told := ""
  warned := ""

/-- The files below the working directory. -/
def folder (disk : Disk) : List (String × List UInt8) :=
  (disk.files.filter fun (place, _) => disk.here.isPrefixOf place).map fun (place, contents) =>
    ("/".intercalate (place.drop disk.here.length), contents)

end Disk

end LC3.Command
