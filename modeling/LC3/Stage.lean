import LC3.Log
import LC3.Problem

namespace LC3

/-!
# Stages

Assembly runs in stages. A stage looks for all the problems it can find; it fails when there is an
error among them, and then the stages behind it do not run.
-/

/-- The stages of assembly. -/
inductive Stage where
  | parsing
  | analysis
  | symbolResolution
  | encoding
deriving DecidableEq

namespace Stage

/-- Every stage, in order. -/
def all : List Stage :=
  [parsing, analysis, symbolResolution, encoding]

/-- The name of a stage in log records. -/
def key : Stage → String
  | parsing => "parse"
  | analysis => "analyze"
  | symbolResolution => "symbols"
  | encoding => "encode"

instance : ToString Stage where
  toString
    | parsing => "parsing"
    | analysis => "analysis"
    | symbolResolution => "symbol resolution"
    | encoding => "encoding"

/-- A log record of a stage. -/
def record (stage : Stage) (level : Level) (message : String) (values : List (String × String)) :
    LogRecord :=
  ⟨level, message, values ++ [("stage", stage.key)]⟩

end Stage

/-- A number of errors in words. -/
def describeErrors (errors : Nat) : String :=
  if errors = 1 then "1 error" else s!"{errors} errors"

/-- A stage has failed with a number of errors. -/
structure StageFailure where
  errors : Nat
deriving DecidableEq

/-- What has failed. -/
def StageFailure.message (failure : StageFailure) : String :=
  s!"stage failed with {describeErrors failure.errors}"

/-- Assembly has failed at a stage with a number of errors. -/
structure AssemblyFailure where
  stage : Stage
  errors : Nat
deriving DecidableEq

/-- What has failed. -/
def AssemblyFailure.message (failure : AssemblyFailure) : String :=
  s!"{failure.stage} failed with {describeErrors failure.errors}"

/-- What a stage makes and what it has found. What it makes is of use only when no error has been
    found. -/
structure StageResult (α : Type) where
  product : α
  notices : List Notice
  log : List LogRecord

namespace StageResult

variable {α : Type}

/-- The number of errors found. -/
def errors (result : StageResult α) : Nat :=
  result.notices.countP Notice.isError

/-- The product of a stage without errors. -/
def outcome (result : StageResult α) : Except StageFailure α :=
  if result.errors = 0 then .ok result.product else .error ⟨result.errors⟩

/-- The same for a stage that does not count its errors itself, but is told how many have been
    recorded before and behind it. -/
def outcomeSince (result : StageResult α) (before behind : Nat) : Except StageFailure α :=
  if behind - before = 0 then .ok result.product else .error ⟨behind - before⟩

end StageResult

end LC3
