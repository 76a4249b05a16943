import LC3.Proofs.Faults

namespace LC3

/-!
# Runs of the assembler

A run goes through the stages in order, up to the first that finds an error. It always comes to an
end, whatever the source is and whatever has been recorded before.

* `Assembly.Finding` — a stage and what it has found.
* `Assembly.Run` — what the stages of a run find, and what the run comes to.
* `Assembly.completes_assemble` — every source has a run, and what it finds is recorded.
-/

namespace Assembly

/-- A stage and what it has found. -/
structure Finding where
  stage : Stage
  notices : List Notice

/-- What can be said of the findings of a run from some stage on, and of what it comes to. -/
abbrev Account := List Finding → Except AssemblyFailure Image → Prop

/-- A stage that fails is the last one; otherwise its product is handed on. -/
inductive Goes {α : Type} (stage : Stage) (result : StageResult α) (next : α → Account) :
    Account where
  | fails {failure : StageFailure} (hout : result.outcome = .error failure) :
    Goes stage result next [⟨stage, result.notices⟩] (.error ⟨stage, failure.errors⟩)
  | on {product : α} {findings : List Finding} {outcome : Except AssemblyFailure Image}
    (hout : result.outcome = .ok product) (hnext : next product findings outcome) :
    Goes stage result next (⟨stage, result.notices⟩ :: findings) outcome

/-- The end of a run with an image. -/
def Ends (image : Image) : Account := fun findings outcome => findings = [] ∧ outcome = .ok image

/-- Encoding a tree. -/
def RunEncoding (root : Node) (symbols : SymbolTable) : Account := fun findings outcome =>
  ∃ encoded, root.encode symbols = .ok encoded ∧ Goes .encoding encoded Ends findings outcome

/-- Resolving the symbols of a tree, and what follows. -/
def RunResolution (root : Node) : Account :=
  Goes .symbolResolution (SymbolTable.build root) (RunEncoding root)

/-- Analyzing a tree, and what follows. -/
def RunAnalysis (tree : Node) : Account :=
  Goes .analysis tree.analyze RunResolution

/-- What the stages of a run find, one behind the other, and what it comes to. -/
def Run (source : String) : Account := fun findings outcome =>
  ∃ parsed, parse source = .ok parsed ∧ Goes .parsing parsed RunAnalysis findings outcome

/-! ### Runs come to an end -/

variable {source : String}

/-- Whether a computation comes to an end with findings of which all is recorded, behind what was
    there before. -/
def Completes (source : String) (diagnostics : Diagnostics) (account : Account)
    (run : Except Breach Assembly) : Prop :=
  ∃ assembly findings added, run = .ok assembly ∧ account findings assembly.outcome ∧
    Notice.Diagnosed source (findings.flatMap Finding.notices) added ∧
    assembly.diagnostics = added.foldl Diagnostics.add diagnostics

/-- A stage completes if what it finds lies in the source and what follows completes. -/
theorem completes_proceed {α : Type} {progress : Progress} {stage : Stage} {result : StageResult α}
    {judge : Diagnostics → Except StageFailure α} {next : Progress → α → Except Breach Assembly}
    {account : α → Account} (hnotices : ∀ notice ∈ result.notices, notice.LiesIn source)
    (hjudge : ∀ recorded, progress.diagnostics.record source result.notices = .ok recorded →
      judge recorded = result.outcome)
    (hnext : ∀ recorded product, result.outcome = .ok product →
      Completes source recorded.diagnostics (account product) (next recorded product)) :
    Completes source progress.diagnostics (Goes stage result account)
      (progress.proceed source stage result judge next) := by
  obtain ⟨added, hadded⟩ := Notice.exists_diagnosed hnotices
  have hrecord : progress.diagnostics.record source result.notices =
      .ok (added.foldl Diagnostics.add progress.diagnostics) :=
    Diagnostics.record_eq_ok_iff.mpr ⟨added, hadded, rfl⟩
  have hprogress : progress.record source result =
      .ok ⟨added.foldl Diagnostics.add progress.diagnostics, progress.log ++ result.log⟩ :=
    bind_eq_ok_iff.mpr ⟨_, hrecord, rfl⟩
  -- whether the stage is the last one depends on its own errors only
  have hjudged := hjudge _ hrecord
  cases hout : result.outcome with
  | error failure =>
    rw [hout] at hjudged
    refine ⟨⟨.error ⟨stage, failure.errors⟩, added.foldl Diagnostics.add progress.diagnostics,
      progress.log ++ result.log⟩, [⟨stage, result.notices⟩], added,
      bind_eq_ok_iff.mpr ⟨_, hprogress, ?_⟩, .fails hout, ?_, rfl⟩
    · dsimp only
      rw [hjudged]
      rfl
    · rw [List.flatMap_singleton]
      exact hadded
  | ok product =>
    -- the stage succeeds, and what the next ones find comes behind what it has found
    rw [hout] at hjudged
    obtain ⟨assembly, findings, more, hrun, haccount, hmore, hdiagnostics⟩ :=
      hnext ⟨added.foldl Diagnostics.add progress.diagnostics, progress.log ++ result.log⟩ product
        hout
    refine ⟨assembly, ⟨stage, result.notices⟩ :: findings, added ++ more,
      bind_eq_ok_iff.mpr ⟨_, hprogress, ?_⟩, .on hout haccount, ?_, ?_⟩
    · dsimp only
      rw [hjudged]
      exact hrun
    · rw [List.flatMap_cons]
      exact List.rel_append hadded hmore
    · rw [hdiagnostics, List.foldl_append]

/-- The stages behind the first complete in the same way, judged by what they have added. -/
theorem completes_proceedSince {α : Type} {progress : Progress} {stage : Stage}
    {result : StageResult α} {next : Progress → α → Except Breach Assembly}
    {account : α → Account} (hnotices : ∀ notice ∈ result.notices, notice.LiesIn source)
    (hnext : ∀ recorded product, result.outcome = .ok product →
      Completes source recorded.diagnostics (account product) (next recorded product)) :
    Completes source progress.diagnostics (Goes stage result account)
      (progress.proceedSince source stage result next) :=
  completes_proceed hnotices (fun _ => StageResult.outcomeSince_eq) hnext

/-- A run that starts with a computation of its own completes if the rest does. -/
private theorem Completes.bind {α : Type} {diagnostics : Diagnostics} {x : Except Breach α} {a : α}
    {rest : α → Except Breach Assembly} {account : α → Account} (hx : x = .ok a)
    (h : Completes source diagnostics (account a) (rest a)) :
    Completes source diagnostics (fun findings outcome => ∃ a, x = .ok a ∧ account a findings outcome)
      (x >>= rest) := by
  obtain ⟨assembly, findings, added, hrun, haccount, hadded, hdiagnostics⟩ := h
  exact ⟨assembly, findings, added, bind_eq_ok_iff.mpr ⟨a, hx, hrun⟩, ⟨a, hx, haccount⟩, hadded,
    hdiagnostics⟩

/-- **Every run comes to an end.** What it finds is recorded behind what was there before. -/
theorem completes_assemble (source : String) (diagnostics : Diagnostics) :
    Completes source diagnostics (Run source) (assemble source diagnostics) := by
  obtain ⟨-, parsed, -, -, hparse, -, -⟩ := exists_parse source
  -- the stages follow one another, and the tree that they work on comes from the source
  refine .bind hparse ?_
  refine completes_proceed (liesIn_of_parse hparse) (fun _ _ => rfl) fun _ tree htree => ?_
  have htree' := Node.comesFrom_of_parse hparse htree
  refine completes_proceedSince htree'.liesIn_analyze fun _ root hroot => ?_
  have hroot' := htree'.analyze hroot
  refine completes_proceedSince hroot'.liesIn_build fun _ symbols _ => ?_
  obtain ⟨encoded, hencode, hnotices⟩ := hroot'.exists_encode symbols
  refine .bind hencode ?_
  refine completes_proceedSince hnotices fun _ image _ => ?_
  exact ⟨_, [], [], rfl, ⟨rfl, rfl⟩, .nil, rfl⟩

/-- A run of a source that can be read goes on with its tree. -/
theorem Run.analysis {result : StageResult Node} {tree : Node} {findings : List Finding}
    {outcome : Except AssemblyFailure Image} (h : Run source findings outcome)
    (hparse : parse source = .ok result) (hout : result.outcome = .ok tree) :
    ∃ findings', RunAnalysis tree findings' outcome := by
  obtain ⟨result', hparse', hgoes⟩ := h
  obtain rfl := Except.ok.inj (hparse.symm.trans hparse')
  cases hgoes with
  | fails hfails =>
    rw [hout] at hfails
    cases hfails
  | on hout' hnext =>
    obtain rfl := Except.ok.inj (hout.symm.trans hout')
    exact ⟨_, hnext⟩

end Assembly

/-- **No source breaks the assembler**, whatever has been recorded before. Nothing that it is made of
    can be missing: every token in front of the end is found at its place in the source, every
    location that a token can have is on a line of the source, the flags of a branch are found in its
    word behind the first two bytes, and operands that fit a format can be read in it. -/
theorem assemble_total (source : String) (diagnostics : Diagnostics) :
    (∃ assembly, assemble source diagnostics = .ok assembly) ∧
      (∀ token ∈ (Lexer.ofSource source).tokens.1, token.kind ≠ .sourceEnd →
        ∃ span ∈ Span.ofSource source, span.token = token ∧
          span.slice? source = some token.text) ∧
      (∀ n, (((Lexer.ofSource source).nth n).location.lineText? source).isSome) ∧
      (∀ token ∈ (Lexer.ofSource source).tokens.1, ∀ mnemonic flags,
        Keyword.lookup token.text = .instruction mnemonic (some flags) →
          Text.slice? 2 (Text.byteLength token.text.toList) token.text.toList =
            some (Line.flagsNode flags token).text.toList) ∧
      ∀ (format : Format) nodes, format.fits nodes →
        ∃ operands, format.read? nodes = some operands ∧ operands.format = format := by
  refine ⟨?_, fun token htoken hkind => ?_, Lexer.liesIn_nth source, ?_, fun format nodes hfits => ?_⟩
  · obtain ⟨assembly, -, -, hrun, -⟩ := Assembly.completes_assemble source diagnostics
    exact ⟨assembly, hrun⟩
  · -- the token of a span, with its text
    obtain ⟨span, hspan, rfl⟩ := Span.exists_of_mem_tokens htoken hkind
    exact ⟨span, hspan, rfl, Span.slice?_ofSource hspan⟩
  · -- the flags are what is left of the word behind its first two bytes
    intro token _ mnemonic flags hlookup
    obtain ⟨hword, hbytes⟩ :=
      Text.cutBytes?_eq_some_iff.mp (Keyword.branch_of_lookup hlookup).2
    have hsuffix : (Line.flagsNode flags token).text.toList = token.text.toList.drop 2 :=
      String.toList_ofList
    rw [hsuffix, Text.slice?_eq_some_iff]
    refine ⟨token.text.toList.take 2, [], ?_, hbytes, ?_⟩
    · rw [List.append_nil, ← hword]
    · rw [← hword]
  · -- the format that fits reads the operands
    obtain ⟨operands, hread⟩ := Option.isSome_iff_exists.mp
      (show (format.read? nodes).isSome by rw [Format.isSome_read?, hfits])
    exact ⟨operands, hread, (Format.read?_spec hread).1⟩

end LC3
