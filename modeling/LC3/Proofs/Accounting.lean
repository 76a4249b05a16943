import LC3.Proofs.Runs

namespace LC3

/-!
# What a run is accountable for

A run fails exactly if it finds errors, all of them in the last stage that runs, and it fails with
their number. The only warning there can be is that of a region that is never closed.

* `Assembly.Accounted` — how what a run finds and what it comes to belong together.
* `Assembly.Warned` — which warnings there can be.
* `Assembly.Stages.exists_assemble` — what a source that assembles raises.
* `assemble_accounts` — the diagnostics and the outcome of a run.
-/

namespace Assembly

/-- The number of errors of a stage. -/
def Finding.errors (finding : Finding) : Nat :=
  finding.notices.countP Notice.isError

/-! ### Errors -/

/-- Whether a run with an image has found no errors, and one that fails has found its errors in the
    last stage and none before. -/
inductive Accounted : Account where
  | image {findings : List Finding} {image : Image}
    (hnone : ∀ finding ∈ findings, finding.errors = 0) : Accounted findings (.ok image)
  | failure {earlier : List Finding} {last : Finding} {failure : AssemblyFailure}
    (hnone : ∀ finding ∈ earlier, finding.errors = 0) (hstage : last.stage = failure.stage)
    (herrors : last.errors = failure.errors) (hsome : 1 ≤ failure.errors) :
    Accounted (earlier ++ [last]) (.error failure)

/-- A stage is accounted for if what follows it is. -/
theorem Goes.accounted {α : Type} {stage : Stage} {result : StageResult α} {next : α → Account}
    {findings : List Finding} {outcome : Except AssemblyFailure Image}
    (h : Goes stage result next findings outcome)
    (hnext : ∀ product findings outcome, next product findings outcome →
      Accounted findings outcome) : Accounted findings outcome := by
  cases h with
  | fails hout =>
    obtain ⟨herrors, rfl⟩ := StageResult.outcome_eq_error_iff.mp hout
    exact @Accounted.failure [] _ _ (List.forall_mem_nil _) rfl rfl (Nat.one_le_iff_ne_zero.mpr herrors)
  | @on product findings outcome hout hrest =>
    -- the stage has no errors, and is put in front of those that are accounted for
    obtain ⟨hnone, -⟩ := StageResult.outcome_eq_ok_iff.mp hout
    cases hnext product findings outcome hrest with
    | image hnone' => exact .image (List.forall_mem_cons.mpr ⟨hnone, hnone'⟩)
    | failure hnone' hstage herrors hsome =>
      exact @Accounted.failure (_ :: _) _ _ (List.forall_mem_cons.mpr ⟨hnone, hnone'⟩) hstage
        herrors hsome

/-- **Every run is accounted for.** -/
theorem Run.accounted {source : String} {findings : List Finding}
    {outcome : Except AssemblyFailure Image} (h : Run source findings outcome) :
    Accounted findings outcome := by
  obtain ⟨parsed, -, h⟩ := h
  refine h.accounted fun tree _ _ h => Goes.accounted h fun root _ _ h => Goes.accounted h ?_
  rintro symbols _ _ ⟨encoded, -, h⟩
  refine h.accounted ?_
  rintro image _ _ ⟨rfl, rfl⟩
  exact .image (List.forall_mem_nil _)

/-- Stages without errors have none together. -/
theorem countP_flatMap_notices {findings : List Finding}
    (h : ∀ finding ∈ findings, finding.errors = 0) :
    (findings.flatMap Finding.notices).countP Notice.isError = 0 := by
  rw [List.countP_eq_zero]
  intro notice hnotice
  obtain ⟨finding, hfinding, hmem⟩ := List.mem_flatMap.mp hnotice
  exact List.countP_eq_zero.mp (h finding hfinding) notice hmem

/-- All errors of a run that fails are those of its last stage. -/
theorem countP_flatMap_notices_append {earlier : List Finding} (last : Finding)
    (h : ∀ finding ∈ earlier, finding.errors = 0) :
    ((earlier ++ [last]).flatMap Finding.notices).countP Notice.isError = last.errors := by
  rw [List.flatMap_append, List.countP_append, countP_flatMap_notices h, List.flatMap_singleton,
    Nat.zero_add, Finding.errors]

/-- A run has an image exactly if none of its stages has found an error. -/
theorem Accounted.exists_image_iff {findings : List Finding}
    {outcome : Except AssemblyFailure Image} (h : Accounted findings outcome) :
    (∃ image, outcome = .ok image) ↔
      (findings.flatMap Finding.notices).countP Notice.isError = 0 := by
  cases h with
  | image hnone => exact iff_of_true ⟨_, rfl⟩ (countP_flatMap_notices hnone)
  | @failure earlier last failure hnone hstage herrors hsome =>
    rw [countP_flatMap_notices_append last hnone, herrors]
    exact iff_of_false nofun (Nat.ne_of_gt hsome)

/-! ### Warnings -/

/-- Whether the warnings among some notices are those of one region: one at most, for a region that
    is never closed. -/
def Warned (notices : List Notice) : Prop :=
  ∃ region : Region, notices.filter (fun notice => !notice.isError) = region.warning?.toList

/-- Whether there are only errors among some notices. -/
def Quiet (notices : List Notice) : Prop :=
  ∀ notice ∈ notices, notice.isError

/-- Errors are not among the warnings. -/
theorem Quiet.filter {notices : List Notice} (h : Quiet notices) :
    notices.filter (fun notice => !notice.isError) = [] := by
  rw [List.filter_eq_nil_iff]
  intro notice hnotice
  rw [h notice hnotice]
  decide

theorem Quiet.warned {notices : List Notice} (h : Quiet notices) : Warned notices :=
  ⟨.outside, h.filter⟩

theorem Quiet.append {first rest : List Notice} (h : Quiet first) (h' : Quiet rest) :
    Quiet (first ++ rest) :=
  fun notice hnotice => (List.mem_append.mp hnotice).elim (h notice) (h' notice)

/-- Errors behind do not add to the warnings. -/
theorem Warned.append_quiet {first rest : List Notice} (h : Warned first) (h' : Quiet rest) :
    Warned (first ++ rest) := by
  obtain ⟨region, hfirst⟩ := h
  exact ⟨region, by rw [List.filter_append, hfirst, h'.filter, List.append_nil]⟩

/-- Errors in front do not add to the warnings. -/
theorem Quiet.append_warned {first rest : List Notice} (h : Quiet first) (h' : Warned rest) :
    Warned (first ++ rest) := by
  obtain ⟨region, hrest⟩ := h'
  exact ⟨region, by rw [List.filter_append, hrest, h.filter, List.nil_append]⟩

section Goes

variable {α : Type} {stage : Stage} {result : StageResult α} {next : α → Account}
  {findings : List Finding} {outcome : Except AssemblyFailure Image}

/-- What a stage finds stands in front of what is found behind it. -/
theorem Goes.exists_rest (h : Goes stage result next findings outcome) :
    ∃ rest, findings.flatMap Finding.notices = result.notices ++ rest ∧ (rest = [] ∨
      ∃ product findings' outcome', result.outcome = .ok product ∧
        next product findings' outcome' ∧ rest = findings'.flatMap Finding.notices) := by
  cases h with
  | fails hout => exact ⟨[], rfl, .inl rfl⟩
  | on hout hnext => exact ⟨_, List.flatMap_cons, .inr ⟨_, _, _, hout, hnext, rfl⟩⟩

/-- A property of what is found behind a stage also holds if nothing runs behind it. -/
theorem Goes.exists_rest_of_next {property : List Notice → Prop}
    (h : Goes stage result next findings outcome) (hnil : property [])
    (hnext : ∀ product findings outcome, next product findings outcome →
      property (findings.flatMap Finding.notices)) :
    ∃ rest, findings.flatMap Finding.notices = result.notices ++ rest ∧ property rest := by
  obtain ⟨rest, hall, rfl | ⟨product, findings', outcome', -, hrest, rfl⟩⟩ := h.exists_rest
  · exact ⟨[], hall, hnil⟩
  · exact ⟨_, hall, hnext product findings' outcome' hrest⟩

/-- What holds of all that a stage finds, and of all that is found behind it if it has a product,
    holds of all that is found. -/
theorem Goes.forall_notices {property : Notice → Prop}
    (h : Goes stage result next findings outcome)
    (hresult : ∀ notice ∈ result.notices, property notice)
    (hnext : ∀ product findings outcome, result.outcome = .ok product →
      next product findings outcome →
        ∀ notice ∈ findings.flatMap Finding.notices, property notice) :
    ∀ notice ∈ findings.flatMap Finding.notices, property notice := by
  obtain ⟨rest, hall, rfl | ⟨product, findings', outcome', hout, hrest, rfl⟩⟩ := h.exists_rest
  · rw [hall, List.append_nil]
    exact hresult
  · rw [hall]
    exact List.forall_mem_append.mpr ⟨hresult, hnext product findings' outcome' hout hrest⟩

/-- Behind a stage with a product there is the rest of the run. -/
theorem Goes.exists_next {product : α} (h : Goes stage result next findings outcome)
    (hout : result.outcome = .ok product) :
    ∃ rest, findings = ⟨stage, result.notices⟩ :: rest ∧ next product rest outcome := by
  cases h with
  | fails hfails => cases hout.symm.trans hfails
  | on hon hnext =>
    obtain rfl := Except.ok.inj (hout.symm.trans hon)
    exact ⟨_, rfl, hnext⟩

end Goes

/-- Parsing does not warn. -/
theorem quiet_parse {source : String} {result : StageResult Node}
    (hparse : parse source = .ok result) : Quiet result.notices := by
  obtain ⟨context, result', -, -, hparse', -, hnotices⟩ := exists_parse source
  obtain rfl := Except.ok.inj (hparse.symm.trans hparse')
  rw [hnotices]
  intro notice hnotice
  obtain ⟨fault, -, rfl⟩ := List.mem_map.mp hnotice
  rfl

/-- The analysis warns of a region that is open behind the last statement. -/
theorem warned_regionNotices (region : Region) (nodes : List Node) :
    Warned (Node.regionNotices region nodes) := by
  induction nodes generalizing region with
  | nil =>
    refine ⟨region, ?_⟩
    rw [Node.regionNotices]
    cases region <;> rfl
  | cons node nodes ih =>
    have hnode : Quiet (Node.statementNotices region node) := by
      intro notice hnotice
      obtain ⟨error, -, rfl⟩ := List.mem_map.mp hnotice
      rfl
    exact hnode.append_warned (ih _)

/-- Building the symbol table does not warn. -/
theorem quiet_build (root : Node) : Quiet (SymbolTable.build root).notices := by
  unfold SymbolTable.build
  split
  case h_1 =>
    intro notice hnotice
    obtain ⟨label, -, rfl⟩ := List.mem_map.mp hnotice
    rfl
  case h_2 => exact fun _ => Node.isError_of_mem_nameNotices

/-- Encoding the statements of a program does not warn. -/
theorem quiet_emitAll {symbols : SymbolTable} {counter : Counter} {nodes : List Node}
    {result : StageResult (List Word)} (h : Node.emitAll symbols counter nodes = .ok result) :
    Quiet result.notices := by
  induction nodes generalizing counter result with
  | nil =>
    cases h
    exact List.forall_mem_nil _
  | cons node nodes ih =>
    obtain ⟨rest, hrest, h⟩ := bind_eq_ok_iff.mp h
    have hquiet := ih hrest
    cases hemit : node.emit (counter.step node) symbols with
    | ok words =>
      rw [hemit] at h
      cases h
      exact hquiet
    | error error =>
      rw [hemit] at h
      cases error with
      | breach breach => cases h
      -- a breach ends the run and a fault is one more error
      | fault fault =>
        cases h
        exact List.forall_mem_cons.mpr ⟨rfl, hquiet⟩

/-- Encoding does not warn. -/
theorem quiet_encode {root : Node} {symbols : SymbolTable} {encoded : StageResult Image}
    (h : root.encode symbols = .ok encoded) : Quiet encoded.notices := by
  obtain ⟨words, hwords, h⟩ := bind_eq_ok_iff.mp h
  cases h
  exact quiet_emitAll hwords

/-- **At most one warning.** Only the analysis warns. -/
theorem Run.warned {source : String} {findings : List Finding}
    {outcome : Except AssemblyFailure Image} (h : Run source findings outcome) :
    Warned (findings.flatMap Finding.notices) := by
  -- from the last stage to the first, each with what follows it
  have hnone : Quiet [] := List.forall_mem_nil _
  have hencoding : ∀ root symbols findings outcome, RunEncoding root symbols findings outcome →
      Quiet (findings.flatMap Finding.notices) := by
    rintro root symbols findings outcome ⟨encoded, hencode, h⟩
    obtain ⟨rest, hall, hrest⟩ := h.exists_rest_of_next hnone (by rintro _ _ _ ⟨rfl, -⟩; exact hnone)
    rw [hall]
    exact (quiet_encode hencode).append hrest
  have hresolution : ∀ root findings outcome, RunResolution root findings outcome →
      Quiet (findings.flatMap Finding.notices) := by
    intro root findings outcome h
    obtain ⟨rest, hall, hrest⟩ := Goes.exists_rest_of_next h hnone (hencoding root)
    rw [hall]
    exact (quiet_build root).append hrest
  have hanalysis : ∀ tree findings outcome, RunAnalysis tree findings outcome →
      Warned (findings.flatMap Finding.notices) := by
    intro tree findings outcome h
    obtain ⟨rest, hall, hrest⟩ := Goes.exists_rest_of_next h hnone hresolution
    rw [hall]
    exact (warned_regionNotices _ _).append_quiet hrest
  obtain ⟨parsed, hparse, h⟩ := h
  obtain ⟨rest, hall, hrest⟩ := h.exists_rest_of_next hnone.warned hanalysis
  rw [hall]
  exact (quiet_parse hparse).append_warned hrest

/-! ### Sources that assemble -/

/-- The diagnostics that a run has added to those that were recorded before. -/
def raised (assembly : Assembly) (before : Diagnostics) : List Diagnostic :=
  assembly.diagnostics.entries.drop before.entries.length

/-- What is added behind the diagnostics recorded before is what a run raises. -/
theorem raised_eq {assembly : Assembly} {before : Diagnostics} {added : List Diagnostic}
    (h : assembly.diagnostics = added.foldl Diagnostics.add before) :
    assembly.raised before = added := by
  rw [raised, h, Diagnostics.entries_foldl_add, List.drop_left]

/-- A stage that can only find errors finds nothing if it succeeds. -/
theorem Quiet.eq_nil {α : Type} {result : StageResult α} {product : α} (h : Quiet result.notices)
    (hout : result.outcome = .ok product) : result.notices = [] := by
  obtain ⟨hnone, -⟩ := StageResult.outcome_eq_ok_iff.mp hout
  rw [StageResult.errors, List.countP_eq_zero] at hnone
  exact List.eq_nil_iff_forall_not_mem.mpr fun notice hnotice =>
    hnone notice hnotice (h notice hnotice)

/-- **A source that assembles does so whatever was recorded before**, and raises at most that a
    region is open behind its last statement. -/
theorem Stages.exists_assemble {source : String} {tree root : Node} {symbols : SymbolTable}
    {image : Image} (h : Stages source tree root symbols image) (diagnostics : Diagnostics) :
    ∃ assembly, assemble source diagnostics = .ok assembly ∧ assembly.outcome = .ok image ∧
      Notice.Diagnosed source (tree.children.foldl Region.after .outside).warning?.toList
        (assembly.raised diagnostics) := by
  obtain ⟨assembly, findings, added, hassemble, ⟨parsed, hparse, hrun⟩, hadded, hdiagnostics⟩ :=
    completes_assemble source diagnostics
  obtain ⟨parsed', hparse', htree⟩ := h.parsed
  obtain rfl := Except.ok.inj (hparse.symm.trans hparse')
  -- no stage is the last one
  obtain ⟨findings, rfl, hanalysis⟩ := hrun.exists_next htree
  obtain ⟨findings, rfl, hresolution⟩ := Goes.exists_next hanalysis h.analyzed
  obtain ⟨findings, rfl, encoded, hencode, hencoding⟩ := Goes.exists_next hresolution h.resolved
  obtain ⟨encoded', hencode', himage⟩ := h.encoded
  obtain rfl := Except.ok.inj (hencode.symm.trans hencode')
  obtain ⟨findings, rfl, rfl, houtcome⟩ := hencoding.exists_next himage
  refine ⟨assembly, hassemble, houtcome, ?_⟩
  have hanalyzed : tree.analyze.notices =
      (tree.children.foldl Region.after .outside).warning?.toList :=
    Node.regionNotices_eq_warning (StageResult.outcome_eq_ok_iff.mp h.analyzed).1
  rw [raised_eq hdiagnostics, ← hanalyzed]
  simpa [(quiet_parse hparse).eq_nil htree, (quiet_build root).eq_nil h.resolved,
    (quiet_encode hencode).eq_nil himage] using hadded

end Assembly

/-! ### What is recorded -/

/-- The warnings recorded are those among the notices. -/
theorem Assembly.Warned.diagnosed {source : String} {notices : List Notice}
    {added : List Diagnostic} (h : Warned notices) (hadded : Notice.Diagnosed source notices added) :
    added.countP (·.severity = .warning) ≤ 1 ∧
      ∀ diagnostic ∈ added, diagnostic.severity = .warning →
        ∃ location?, Notice.diagnose source ⟨.warning, .assembly .unclosedOrigin, location?⟩ =
          .ok diagnostic := by
  obtain ⟨region, hregion⟩ := h
  -- warnings correspond, and there is at most the one of the region
  have hcount : added.countP (·.severity = .warning) =
      (notices.filter fun notice => !notice.isError).length := by
    rw [hadded.countP_severity, ← List.countP_eq_length_filter]
    refine List.countP_congr fun notice _ => ?_
    unfold Notice.isError
    cases notice.severity <;> decide
  refine ⟨?_, fun diagnostic hdiagnostic hwarning => ?_⟩
  · -- at most the one warning of the region
    rw [hcount, hregion]
    exact Option.length_toList_le
  · -- each warning added is that of a notice, and only an open region has one
    obtain ⟨notice, hnotice, hdiagnose⟩ := exists_mem_of_forall₂ hadded hdiagnostic
    have hmem : notice ∈ notices.filter fun notice => !notice.isError := by
      rw [List.mem_filter, Notice.isError, ← Notice.severity_of_diagnose hdiagnose, hwarning]
      exact ⟨hnotice, rfl⟩
    rw [hregion] at hmem
    cases region with
    | outside => cases hmem
    | inside origin? =>
      obtain rfl := List.mem_singleton.mp hmem
      exact ⟨origin?, hdiagnose⟩

/-- **Every error is accounted for.** A run adds what its stages find behind what was recorded
    before, and counts it. It has an image exactly if no error is added. Otherwise it fails at the
    last stage that has run, with the number of errors added, all of them found by that stage. At
    most one warning is added, that of a region that is never closed. -/
theorem assemble_accounts (source : String) (diagnostics : Diagnostics) :
    ∃ assembly findings added, assemble source diagnostics = .ok assembly ∧
      Assembly.Run source findings assembly.outcome ∧
      Notice.Diagnosed source (findings.flatMap Assembly.Finding.notices) added ∧
      assembly.diagnostics.entries = diagnostics.entries ++ added ∧
      assembly.diagnostics.errorCount =
        assembly.diagnostics.entries.countP (·.severity = .error) ∧
      assembly.diagnostics.warningCount =
        assembly.diagnostics.entries.countP (·.severity = .warning) ∧
      ((∃ image, assembly.outcome = .ok image) ↔ added.countP (·.severity = .error) = 0) ∧
      (∀ failure, assembly.outcome = .error failure →
        failure.errors = added.countP (·.severity = .error) ∧ 1 ≤ failure.errors ∧
          ∃ earlier last, findings = earlier ++ [last] ∧ last.stage = failure.stage ∧
            last.errors = failure.errors ∧ ∀ finding ∈ earlier, finding.errors = 0) ∧
      added.countP (·.severity = .warning) ≤ 1 ∧
      ∀ diagnostic ∈ added, diagnostic.severity = .warning →
        ∃ location?, Notice.diagnose source ⟨.warning, .assembly .unclosedOrigin, location?⟩ =
          .ok diagnostic := by
  obtain ⟨assembly, findings, added, hassemble, hrun, hadded, hdiagnostics⟩ :=
    Assembly.completes_assemble source diagnostics
  have haccounted := hrun.accounted
  obtain ⟨hwarnings, hunclosed⟩ := hrun.warned.diagnosed hadded
  refine ⟨assembly, findings, added, hassemble, hrun, hadded, ?_,
    assembly.diagnostics.errorCount_eq, assembly.diagnostics.warningCount_eq, ?_, ?_, hwarnings,
    hunclosed⟩
  · -- what is added comes behind what was recorded
    rw [hdiagnostics, Diagnostics.entries_foldl_add]
  · -- there is an image exactly if no stage has found an error
    rw [hadded.countP_eq]
    exact haccounted.exists_image_iff
  · -- the last stage that has run has found all errors
    rw [hadded.countP_eq]
    generalize assembly.outcome = outcome at haccounted
    rintro failure rfl
    cases haccounted with
    | @failure earlier last _ hnone hstage herrors hsome =>
      rw [Assembly.countP_flatMap_notices_append last hnone]
      exact ⟨herrors.symm, hsome, earlier, last, rfl, hstage, herrors, hnone⟩

end LC3
