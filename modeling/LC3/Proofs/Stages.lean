import LC3.Proofs.Recording

namespace LC3

/-!
# The stages of a successful assembly

Assembly hands the product of each stage to the next and stops at the first stage with an error.
Whoever reasons about an image wants the tree and the symbol table behind it.

* `Assembly.Stages` — what the four stages make of a source that assembles.
* `Assembly.exists_stages` — every image comes from such stages.
* `Assembly.stagesOf?` — the symbol table and the tree, computed.
* `StageResult.outcome_eq_ok_iff` — a stage has a product exactly if none of its notices is an
  error.
-/

namespace StageResult

variable {α : Type}

/-- The outcome of a stage is its product exactly if it has found no error. -/
theorem outcome_eq_ok_iff {result : StageResult α} {product : α} :
    result.outcome = .ok product ↔ result.errors = 0 ∧ result.product = product := by
  unfold outcome
  split
  case isTrue h => simp [h]
  case isFalse h => simp [h]

/-- The outcome of a stage is a failure exactly if it has found errors, and then it counts them. -/
theorem outcome_eq_error_iff {result : StageResult α} {failure : StageFailure} :
    result.outcome = .error failure ↔ result.errors ≠ 0 ∧ failure = ⟨result.errors⟩ := by
  unfold outcome
  split
  case isTrue h => simp [h]
  case isFalse h =>
    simp only [Except.error.injEq, ne_eq, h, not_false_eq_true, true_and]
    exact eq_comm

end StageResult

/-- The analysis of a tree only records formats. -/
theorem Node.children_of_analyze {tree root : Node} (h : tree.analyze.outcome = .ok root) :
    root.children = tree.children.map recordFormat := by
  obtain ⟨-, hproduct⟩ := StageResult.outcome_eq_ok_iff.mp h
  rw [← hproduct]
  rfl

namespace Assembly

/-- What the stages make of a source that assembles: the tree that is read, the same tree with the
    formats of its instructions, the symbol table, and the image. -/
structure Stages (source : String) (tree root : Node) (symbols : SymbolTable) (image : Image) :
    Prop where
  parsed : ∃ result, parse source = .ok result ∧ result.outcome = .ok tree
  analyzed : tree.analyze.outcome = .ok root
  resolved : (SymbolTable.build root).outcome = .ok symbols
  encoded : ∃ result, root.encode symbols = .ok result ∧ result.outcome = .ok image

/-- A stage is followed by the next only with its product. -/
theorem proceed_eq_ok {α : Type} {progress : Progress} {source : String} {stage : Stage}
    {result : StageResult α} {judge : Diagnostics → Except StageFailure α}
    {next : Progress → α → Except Breach Assembly} {assembly : Assembly} {image : Image}
    (h : progress.proceed source stage result judge next = .ok assembly)
    (hjudge : ∀ recorded, progress.diagnostics.record source result.notices = .ok recorded →
      judge recorded = result.outcome)
    (himage : assembly.outcome = .ok image) :
    ∃ product recorded, result.outcome = .ok product ∧ next recorded product = .ok assembly := by
  obtain ⟨recorded, hrecorded, h⟩ := bind_eq_ok_iff.mp h
  obtain ⟨diagnostics, hdiagnostics, hrecorded⟩ := bind_eq_ok_iff.mp hrecorded
  cases hrecorded
  rw [hjudge diagnostics hdiagnostics] at h
  cases hout : result.outcome with
  | error failure =>
    rw [hout] at h
    cases h
    cases himage
  | ok product =>
    rw [hout] at h
    exact ⟨product, _, rfl, h⟩

/-- The stages behind the first are followed in the same way. -/
theorem proceedSince_eq_ok {α : Type} {progress : Progress} {source : String} {stage : Stage}
    {result : StageResult α} {next : Progress → α → Except Breach Assembly} {assembly : Assembly}
    {image : Image} (h : progress.proceedSince source stage result next = .ok assembly)
    (himage : assembly.outcome = .ok image) :
    ∃ product recorded, result.outcome = .ok product ∧ next recorded product = .ok assembly :=
  proceed_eq_ok h (fun _ => StageResult.outcomeSince_eq) himage

/-- **Every image comes from four successful stages.** -/
theorem exists_stages {source : String} {diagnostics : Diagnostics} {assembly : Assembly}
    {image : Image} (h : assemble source diagnostics = .ok assembly)
    (himage : assembly.outcome = .ok image) :
    ∃ tree root symbols, Stages source tree root symbols image := by
  obtain ⟨parsed, hparse, h⟩ := bind_eq_ok_iff.mp h
  obtain ⟨tree, _, htree, h⟩ := proceed_eq_ok h (fun _ _ => rfl) himage
  obtain ⟨root, _, hroot, h⟩ := proceedSince_eq_ok h himage
  obtain ⟨symbols, _, hsymbols, h⟩ := proceedSince_eq_ok h himage
  obtain ⟨encoded, hencode, h⟩ := bind_eq_ok_iff.mp h
  obtain ⟨product, recorded, hproduct, h⟩ := proceedSince_eq_ok h himage
  obtain rfl : product = image := by
    cases h
    simpa using himage
  exact ⟨tree, root, symbols, ⟨parsed, hparse, htree⟩, hroot, hsymbols, encoded, hencode, hproduct⟩

/-- The symbol table of a source and the tree with the formats of its instructions, as far as the
    stages in front of encoding find no error. -/
def stagesOf? (source : String) : Option (SymbolTable × Node) := do
  let parsed ← (parse source).toOption
  let tree ← parsed.outcome.toOption
  let root ← tree.analyze.outcome.toOption
  let symbols ← (SymbolTable.build root).outcome.toOption
  return (symbols, root)

/-- The stages of a source are those that can be computed. -/
theorem Stages.stagesOf?_eq {source : String} {tree root : Node} {symbols : SymbolTable}
    {image : Image} (h : Stages source tree root symbols image) :
    stagesOf? source = some (symbols, root) := by
  obtain ⟨parsed, hparse, htree⟩ := h.parsed
  simp [stagesOf?, hparse, htree, h.analyzed, h.resolved, Except.toOption]

end Assembly

end LC3
