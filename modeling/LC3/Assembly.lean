import LC3.Diagnostic
import LC3.Encoding
import LC3.Program
import LC3.Region

namespace LC3

/-!
# Assembly

From source to image: the program is read, checked, its labels get their addresses, and its
statements are encoded. The first stage that finds errors is the last one that runs.
-/

/-- What assembly has come to. -/
structure Assembly where
  outcome : Except AssemblyFailure Image
  diagnostics : Diagnostics
  log : List LogRecord

namespace Assembly

/-- What has been collected while stages run. -/
structure Progress where
  diagnostics : Diagnostics
  log : List LogRecord

namespace Progress

/-- Adds what a stage has found. -/
def record {α : Type} (progress : Progress) (source : String) (result : StageResult α) :
    Except Breach Progress := do
  let diagnostics ← progress.diagnostics.record source result.notices
  return ⟨diagnostics, progress.log ++ result.log⟩

/-- Runs what follows a stage, or ends with its failure. `judge` tells from all diagnostics whether
    the stage has failed. -/
def proceed {α : Type} (progress : Progress) (source : String) (stage : Stage)
    (result : StageResult α) (judge : Diagnostics → Except StageFailure α)
    (next : Progress → α → Except Breach Assembly) : Except Breach Assembly := do
  let recorded ← progress.record source result
  match judge recorded.diagnostics with
  | .error failure =>
    return ⟨.error ⟨stage, failure.errors⟩, recorded.diagnostics, recorded.log⟩
  | .ok product => next recorded product

/-- The same for a stage that is judged by the errors that have been recorded since it began. -/
def proceedSince {α : Type} (progress : Progress) (source : String) (stage : Stage)
    (result : StageResult α) (next : Progress → α → Except Breach Assembly) :
    Except Breach Assembly :=
  progress.proceed source stage result
    (fun recorded => result.outcomeSince progress.diagnostics.errorCount recorded.errorCount) next

end Progress

end Assembly

/-- Assembles a source. What is found is added to the diagnostics. Reading counts its own errors;
    the other stages are judged by the diagnostics, in which there may be errors already. -/
def assemble (source : String) (diagnostics : Diagnostics) : Except Breach Assembly := do
  let parsed ← parse source
  Assembly.Progress.proceed ⟨diagnostics, []⟩ source .parsing parsed (fun _ => parsed.outcome)
    fun progress root =>
      progress.proceedSince source .analysis root.analyze fun progress root =>
        progress.proceedSince source .symbolResolution (SymbolTable.build root)
          fun progress symbols => do
            let encoded ← root.encode symbols
            progress.proceedSince source .encoding encoded fun progress image =>
              return {
                outcome := .ok image
                diagnostics := progress.diagnostics
                log := progress.log ++ [⟨.info, "assembled",
                  [("words", toString image.size), ("labels", toString symbols.size),
                    ("warnings", toString progress.diagnostics.warningCount)]⟩] }

end LC3
