namespace LC3

/-!
# Log records

What assembly tells about its own progress, in order.
-/

/-- How detailed a record is. -/
inductive Level where
  | trace
  | debug
  | info
deriving DecidableEq

namespace Level

/-- The name of a level. -/
def name : Level → String
  | trace => "TRACE"
  | debug => "DEBUG"
  | info => "INFO"

/-- The number of times that more detail has to be asked for before a level is shown. -/
def verbosity : Level → Nat
  | info => 1
  | debug => 2
  | trace => 3

end Level

/-- A record of progress: a message with named values. -/
structure LogRecord where
  level : Level
  message : String
  values : List (String × String)
deriving DecidableEq

namespace LogRecord

/-- A record on one line. -/
def render (record : LogRecord) : String :=
  let values := record.values.map fun (key, value) => s!", {key}: {value}"
  s!"{record.level.name} {record.message}" ++ String.join values ++ "\n"

end LogRecord

end LC3
