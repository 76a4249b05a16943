import LC3.Proofs.Accounting
import LC3.Proofs.Misfits
import LC3.Proofs.TreeRuns
import LC3.Proofs.WellLabelled

namespace LC3

/-!
# Programs with the same texts

Two trees with the same texts can come from different places of different sources. The stages behind
reading do not see the difference: they find the same problems in the same order, and make the same
words. Only the line that a duplicate label is first defined on is quoted.

* `Problem.Echoes`, `Notice.Echoes`, `Diagnostic.Echoes` — what says the same, wherever it points.
* `Node.SameText` — nodes with tokens of the same text.
* `Node.regionNotices_echoes`, `Node.build_echoes`, `Node.encode_echoes` — what each stage
  finds.
* `Assembly.Goes.agree` — two stages with findings that say the same come to the same.
-/

/-! ### Saying the same -/

/-- Two problems that are the same but for the line that a label is first defined on. -/
inductive Problem.Echoes : Problem → Problem → Prop where
  | same (problem : Problem) : Echoes problem problem
  | duplicate (name : String) (line line' : Nat) :
    Echoes (.assembly (.duplicateLabel name line)) (.assembly (.duplicateLabel name line'))

/-- Two notices that say the same, wherever they point. -/
structure Notice.Echoes (notice other : Notice) : Prop where
  severity : other.severity = notice.severity
  problem : notice.problem.Echoes other.problem

/-- Two diagnostics that say the same, wherever they point. When a label is defined again, the help
    quotes the line of its first definition. -/
structure Diagnostic.Echoes (diagnostic other : Diagnostic) : Prop where
  severity : other.severity = diagnostic.severity
  message : other.message = diagnostic.message
  help : other.help? = diagnostic.help? ∨ ∃ name line line',
    diagnostic.message = (AssemblyError.duplicateLabel name line).message ∧
      diagnostic.help? = some (AssemblyError.duplicateLabel name line).help ∧
        other.help? = some (AssemblyError.duplicateLabel name line').help

namespace Notice

variable {source source' : String} {notice other : Notice} {notices others : List Notice}
  {diagnostic diagnostic' : Diagnostic} {added added' : List Diagnostic}

theorem Echoes.isError_eq (h : notice.Echoes other) : other.isError = notice.isError := by
  rw [isError, isError, h.severity]

/-- Among notices that say the same are as many errors. -/
theorem countP_isError_of_echoes (h : List.Forall₂ Echoes notices others) :
    others.countP isError = notices.countP isError := by
  induction h with
  | nil => rfl
  | cons hnotice _ ih => rw [List.countP_cons, List.countP_cons, hnotice.isError_eq, ih]

/-- Errors say the same if their problems are the same. -/
theorem echoes_of_map_problem_eq (h : others.map problem = notices.map problem)
    (hquiet : Assembly.Quiet notices) (hquiet' : Assembly.Quiet others) :
    List.Forall₂ Echoes notices others := by
  induction notices generalizing others with
  | nil =>
    obtain rfl : others = [] := by simpa using h
    exact .nil
  | cons notice notices ih =>
    obtain ⟨other, others, rfl, hproblem, hrest⟩ := List.map_eq_cons_iff.mp h
    obtain ⟨hfirst, hquiet⟩ := List.forall_mem_cons.mp hquiet
    obtain ⟨hfirst', hquiet'⟩ := List.forall_mem_cons.mp hquiet'
    -- both notices are errors, so that only the problem is left to compare
    simp only [isError, decide_eq_true_eq] at hfirst hfirst'
    refine .cons ⟨hfirst'.trans hfirst.symm, ?_⟩ (ih hrest hquiet hquiet')
    rw [hproblem]
    exact .same _

/-- The wordings of notices that say the same say the same. -/
theorem Echoes.diagnose (h : notice.Echoes other)
    (hdiagnose : notice.diagnose source = .ok diagnostic)
    (hdiagnose' : other.diagnose source' = .ok diagnostic') : diagnostic.Echoes diagnostic' := by
  obtain ⟨place?, rfl⟩ := exists_place_of_diagnose hdiagnose
  obtain ⟨place?', rfl⟩ := exists_place_of_diagnose hdiagnose'
  obtain ⟨severity, problem, location?⟩ := notice
  obtain ⟨severity', problem', location?'⟩ := other
  obtain ⟨hseverity, hproblem⟩ := h
  cases hproblem with
  | same => exact ⟨hseverity, rfl, .inl rfl⟩
  | duplicate name line line' =>
    exact ⟨hseverity, rfl, .inr ⟨name, line, line', rfl, rfl, rfl⟩⟩

/-- Notices that say the same are diagnosed by diagnostics that do. -/
theorem Diagnosed.echoes (h : List.Forall₂ Echoes notices others)
    (hadded : Diagnosed source notices added) (hadded' : Diagnosed source' others added') :
    List.Forall₂ Diagnostic.Echoes added added' := by
  induction h generalizing added added' with
  | nil =>
    cases hadded
    cases hadded'
    exact .nil
  | cons hnotice _ ih =>
    obtain ⟨diagnostic, added, hdiagnose, hrest, rfl⟩ := List.forall₂_cons_left_iff.mp hadded
    obtain ⟨diagnostic', added', hdiagnose', hrest', rfl⟩ := List.forall₂_cons_left_iff.mp hadded'
    exact .cons (hnotice.diagnose hdiagnose hdiagnose') (ih hrest hrest')

end Notice

namespace Node

/-! ### Trees with the same texts -/

/-- Whether the tokens of two nodes have the same text. Flags have a token of their own. -/
def SameText (node other : Node) : Prop :=
  node.isFlags = false → other.token?.map Token.text = node.token?.map Token.text

variable {node other root root' : Node} {nodes others : List Node}

/-- The texts of nodes with the same text are equal, unless they are flags. -/
theorem SameText.text_eq (h : node.SameText other) (hplain : node.isFlags = false) :
    other.text = node.text := by
  have htoken := h hplain
  unfold text
  cases htoken' : node.token? <;> cases htoken'' : other.token? <;> simp_all

/-- In trees with the same texts labels have the same names. -/
theorem Alike.renames (h : node.Alike SameText other) : node.Alike (Renames id) other :=
  h.imp fun _ _ _ _ htext hlabel => htext.text_eq (isFlags_of_isLabel hlabel)

/-- Recording formats leaves texts alone. -/
theorem SameText.recordFormat (h : node.SameText other) :
    node.recordFormat.SameText other.recordFormat := by
  intro hplain
  rw [isFlags_recordFormat] at hplain
  rw [token?_recordFormat, token?_recordFormat]
  exact h hplain

/-! ### Analysis -/

/-- The operands of statements with the same texts are wrong in the same way. -/
theorem Alike.formatError?_eq (h : node.Alike SameText other) :
    other.formatError? = node.formatError? := by
  have hkinds := map_kind_of_alike h.children
  simp only [formatError?, h.kind_eq, fits_congr hkinds, matchedFormat?_congr hkinds]
  cases hkind : node.kind with
  | instruction mnemonic recorded? flags? =>
    have htext := h.top (by simp [isFlags, hkind])
    dsimp only
    rw [htext]
  | _ => rfl

/-- **The analysis finds the same problems in trees with the same texts.** -/
theorem regionNotices_echoes {region region' : Region}
    (h : List.Forall₂ (Alike SameText) nodes others)
    (hregion : region' = .outside ↔ region = .outside) :
    List.Forall₂ Notice.Echoes (regionNotices region nodes) (regionNotices region' others) := by
  induction h generalizing region region' with
  | nil =>
    cases region with
    | outside =>
      rw [hregion.mpr rfl]
      exact .nil
    | inside origin? =>
      cases region' with
      | outside => simp at hregion
      | inside origin?' => exact .cons ⟨rfl, .same _⟩ .nil
  | @cons node other _ _ hnode _ ih =>
    have hstatement : List.Forall₂ Notice.Echoes (statementNotices region node)
        (statementNotices region' other) := by
      rw [statementNotices, statementNotices, hnode.kind_eq, error?_congr hregion,
        hnode.formatError?_eq, List.forall₂_map_left_iff, List.forall₂_map_right_iff]
      exact List.forall₂_same.mpr fun error _ => ⟨rfl, .same _⟩
    rw [regionNotices, regionNotices]
    exact List.rel_append hstatement (ih (after_eq_outside_congr hregion hnode.kind_eq))

/-! ### Labels -/

/-- Whether a region or the program ends next depends on the kinds of statements. -/
theorem ends_congr (h : List.Forall₂ (Alike SameText) nodes others) : Ends others ↔ Ends nodes := by
  induction h with
  | nil => exact Iff.rfl
  | @cons node other _ _ hnode _ ih =>
    have hkind := hnode.kind_eq
    -- the next statement ends a region, takes a word, or is passed
    rcases Binder.visit_kinds node with h | h | h
    · exact iff_of_true (ends_cons_of_endRegion (hkind.trans h)) (ends_cons_of_endRegion h)
    · have h' : Binder.isAddressed other.kind := by rwa [hkind]
      exact iff_of_false (not_ends_cons_of_isAddressed h') (not_ends_cons_of_isAddressed h)
    · have h' : Binder.passes other := by
        unfold Binder.passes at h ⊢
        rwa [hkind]
      rw [ends_cons_of_passes h, ends_cons_of_passes h', ih]

/-- The labels without an address are the same. -/
theorem forall₂_unaddressed (h : List.Forall₂ (Alike SameText) nodes others) :
    List.Forall₂ (fun node other => other.text = node.text) (unaddressed nodes)
      (unaddressed others) := by
  induction h with
  | nil => exact .nil
  | @cons node other _ _ hnode hrest ih =>
    rw [unaddressed_cons, unaddressed_cons, hnode.kind_eq]
    simp only [ends_congr hrest]
    refine List.rel_append ?_ ih
    split
    case isTrue hlabel =>
      have htext := hnode.top.text_eq (by simp [isFlags, hlabel.1])
      exact .cons htext .nil
    case isFalse => exact .nil

/-- What is wrong with names is the same if they are. -/
theorem nameNotices_echoes (h : root.Alike SameText root') :
    List.Forall₂ Notice.Echoes root.nameNotices root'.nameNotices := by
  refine (forall₂_nameNotices h.renames (Set.injOn_id _)).imp fun notice other hnotice => ?_
  cases hnotice with
  | duplicate node other name line line' => exact ⟨rfl, .duplicate name line line'⟩
  | undefined node other name => exact ⟨rfl, .same _⟩

/-- **Symbol resolution finds the same problems in trees with the same texts.** -/
theorem build_echoes (h : root.Alike SameText root') :
    List.Forall₂ Notice.Echoes (SymbolTable.build root).notices
      (SymbolTable.build root').notices := by
  have hnames := nameNotices_echoes h
  have hnone : root'.nameNotices = [] ↔ root.nameNotices = [] := by
    rw [← List.length_eq_zero_iff, ← hnames.length_eq, List.length_eq_zero_iff]
  rw [SymbolTable.notices_build, SymbolTable.notices_build]
  simp only [ne_eq, hnone]
  split
  case isTrue => exact hnames
  case isFalse =>
    rw [List.forall₂_map_left_iff, List.forall₂_map_right_iff]
    refine (forall₂_unaddressed h.children).imp fun node other htext => ⟨rfl, ?_⟩
    rw [htext]
    exact .same _

/-! ### Encoding -/

end Node

section Settled

open Node

variable {symbols symbols' : SymbolTable} {mnemonic : Mnemonic} {nodes others : List Node}
  {operand : Node} {width : Width}

/-- An instruction measures the distance to the operand in the same place. -/
theorem Mnemonic.Measures.settled
    (h : mnemonic.Measures nodes operand width)
    (hsettles : List.Forall₂ (SettlesAlike symbols symbols') nodes others) :
    ∃ operand', mnemonic.Measures others operand' width ∧
      operand.SettlesAlike symbols symbols' operand' := by
  cases h with
  | branch flags operand hflags =>
    rcases hsettles with _ | ⟨hfirst, _ | ⟨hoperand, _ | _⟩⟩
    exact ⟨_, .branch _ _ (hfirst.kind.trans hflags), hoperand⟩
  | registerAddress register operand hmnemonic hregister =>
    rcases hsettles with _ | ⟨hfirst, _ | ⟨hoperand, _ | _⟩⟩
    exact ⟨_, .registerAddress _ _ hmnemonic (hfirst.kind.trans hregister), hoperand⟩
  | jump operand hmnemonic =>
    rcases hsettles with _ | ⟨hoperand, _ | _⟩
    exact ⟨_, .jump _ hmnemonic, hoperand⟩

/-- An instruction packs the number in the same place. -/
theorem Mnemonic.Packs.settled {signedness : Signedness}
    (h : mnemonic.Packs nodes operand signedness width)
    (hsettles : List.Forall₂ (SettlesAlike symbols symbols') nodes others) :
    ∃ operand', mnemonic.Packs others operand' signedness width ∧
      operand.SettlesAlike symbols symbols' operand' := by
  cases h with
  | immediate first second operand hmnemonic hfirst hsecond =>
    rcases hsettles with _ | ⟨hfirst', _ | ⟨hsecond', _ | ⟨hoperand, _ | _⟩⟩⟩
    exact ⟨_, .immediate _ _ _ hmnemonic (hfirst'.kind.trans hfirst) (hsecond'.kind.trans hsecond),
      hoperand⟩
  | offset first second operand hmnemonic hfirst hsecond =>
    rcases hsettles with _ | ⟨hfirst', _ | ⟨hsecond', _ | ⟨hoperand, _ | _⟩⟩⟩
    exact ⟨_, .offset _ _ _ hmnemonic (hfirst'.kind.trans hfirst) (hsecond'.kind.trans hsecond),
      hoperand⟩
  | vector operand =>
    rcases hsettles with _ | ⟨hoperand, _ | _⟩
    exact ⟨_, .vector _, hoperand⟩

end Settled

namespace Node

variable {symbols symbols' : SymbolTable} {node other root root' operand operand' : Node}
  {nodes others : List Node} {next target : Word} {fault : AssemblyFault} {counter : Counter}

/-- Operands that settle to the same stand for the same address. -/
theorem SettlesAlike.denotes (h : operand.SettlesAlike symbols symbols' operand')
    (hdenotes : operand.Denotes symbols target) : operand'.Denotes symbols' target := by
  cases hdenotes with
  | number hkind => exact .number (h.kind.trans hkind)
  | label hkind hlookup => exact .label (h.kind.trans hkind) ((h.lookup hkind).trans hlookup)

/-- Which of two statements settles to the other makes no difference. -/
theorem SettlesTo.symm (h : node.SettlesTo symbols symbols' other) :
    other.SettlesTo symbols' symbols node :=
  ⟨h.1.symm, h.2.flip.imp fun _ _ hoperand =>
    ⟨hoperand.kind.symm, fun hkind => (hoperand.lookup (hoperand.kind.symm.trans hkind)).symm⟩⟩

/-- Statements that settle to the same have operands that do not fit in the same way. -/
theorem Misfits.settled (h : node.Misfits next symbols fault)
    (hsettles : node.SettlesTo symbols symbols' other) :
    ∃ location?, other.Misfits next symbols' ⟨fault.error, location?⟩ := by
  obtain ⟨hkind', hchildren⟩ := hsettles
  cases h with
  | distance hkind hmeasures hdenotes hmissed =>
    obtain ⟨operand', hmeasures', hoperand⟩ := hmeasures.settled hchildren
    exact ⟨_, .distance (hkind'.trans hkind) hmeasures' (hoperand.denotes hdenotes) hmissed⟩
  | number hkind hpacks hvalue hrange =>
    obtain ⟨operand', hpacks', hoperand⟩ := hpacks.settled hchildren
    exact ⟨_, .number (hkind'.trans hkind) hpacks' (hoperand.kind.trans hvalue) hrange⟩

/-- A statement that settles to one that can be encoded can be encoded, too. -/
theorem Encodable.settled (h : node.Encodable symbols)
    (hsettles : node.SettlesTo symbols symbols' other) : other.Encodable symbols' := by
  refine ⟨hsettles.recordsOwnFormat h.recordsOwnFormat, ?_, fun operand' hoperand' hkind' => ?_⟩
  · have hformat := h.formatError?
    have hkinds := map_kind_of_settlesAlike hsettles.2
    simp only [Node.formatError?, hsettles.1, fits_congr hkinds, matchedFormat?_congr hkinds]
      at hformat ⊢
    cases hkind : node.kind <;> simp_all
  · obtain ⟨operand, hoperand, hsettles'⟩ := exists_mem_of_forall₂ hsettles.2 hoperand'
    have hkind : operand.kind = .labelReference := hsettles'.kind.symm.trans hkind'
    rw [hsettles'.lookup hkind]
    exact h.resolves operand hoperand hkind

/-- A statement has the fault of one that it settles to. -/
private theorem fault?_of_settlesTo (h : node.Encodable symbols)
    (hsettles : node.SettlesTo symbols symbols' other) {words words' : List Word}
    (hfault : (⟨node, counter, words⟩ : Listing.Entry).fault? symbols = some fault) :
    ∃ location?, (⟨other, counter, words'⟩ : Listing.Entry).fault? symbols' =
      some ⟨fault.error, location?⟩ := by
  have hmisfits := h.emit_eq_fault_iff.mp (Listing.Entry.fault?_eq_some_iff.mp hfault)
  obtain ⟨location?, hmisfits'⟩ := hmisfits.settled hsettles
  exact ⟨location?, Listing.Entry.fault?_eq_some_iff.mpr
    ((h.settled hsettles).emit_eq_fault_iff.mpr hmisfits')⟩

/-- Statements that settle to the same have the same faults at the same counters. -/
theorem map_error_fault?_settled (h : node.Encodable symbols)
    (hsettles : node.SettlesTo symbols symbols' other) {words words' : List Word} :
    ((⟨other, counter, words'⟩ : Listing.Entry).fault? symbols').map AssemblyFault.error =
      ((⟨node, counter, words⟩ : Listing.Entry).fault? symbols).map AssemblyFault.error := by
  cases hfault : (⟨node, counter, words⟩ : Listing.Entry).fault? symbols with
  | some fault =>
    obtain ⟨location?, hfault'⟩ := fault?_of_settlesTo h hsettles hfault
    rw [hfault']
    rfl
  | none =>
    cases hfault' : (⟨other, counter, words'⟩ : Listing.Entry).fault? symbols' with
    | some fault =>
      obtain ⟨location?, hsome⟩ := fault?_of_settlesTo (h.settled hsettles) hsettles.symm hfault'
      cases hfault.symm.trans hsome
    | none => rfl

/-- Programs that settle to the same have the same faults at the same statements. -/
theorem map_listing_fault?_settled (h : List.Forall₂ (SettlesTo symbols symbols') nodes others)
    (hready : ∀ node ∈ nodes, node.Encodable symbols) (counter : Counter) :
    (listing symbols' counter others).map (fun entry =>
        (entry.fault? symbols').map AssemblyFault.error) =
      (listing symbols counter nodes).map fun entry =>
        (entry.fault? symbols).map AssemblyFault.error := by
  induction h generalizing counter with
  | nil => rfl
  | @cons node other _ _ hsettles _ ih =>
    obtain ⟨hnode, hnodes⟩ := List.forall_mem_cons.mp hready
    have hcounter : counter.step other = counter.step node :=
      Counter.step_congr hsettles.1 (map_kind_of_settlesAlike hsettles.2) counter
    rw [listing, listing, hcounter, List.map_cons, List.map_cons, ih hnodes,
      map_error_fault?_settled hnode hsettles]

/-- **Encoding finds the same problems in programs that settle to the same.** -/
theorem encode_echoes {result result' : StageResult Image}
    (h : List.Forall₂ (SettlesTo symbols symbols') root.children root'.children)
    (hready : ∀ node ∈ root.children, node.Encodable symbols)
    (hencode : root.encode symbols = .ok result) (hencode' : root'.encode symbols' = .ok result') :
    List.Forall₂ Notice.Echoes result.notices result'.notices := by
  refine Notice.echoes_of_map_problem_eq ?_ (Assembly.quiet_encode hencode)
    (Assembly.quiet_encode hencode')
  have hown : ∀ node ∈ root.children, node.RecordsOwnFormat :=
    fun node hnode => (hready node hnode).recordsOwnFormat
  have hown' := recordsOwnFormat_of_settlesTo h hown
  obtain ⟨log, hlisted⟩ := encode_eq_listing hown symbols
  obtain ⟨log', hlisted'⟩ := encode_eq_listing hown' symbols'
  obtain rfl := Except.ok.inj (hencode.symm.trans hlisted)
  obtain rfl := Except.ok.inj (hencode'.symm.trans hlisted')
  -- the errors are those of the statements that have one
  have hfaults := congrArg (List.filterMap fun error? => error?.map Problem.assembly)
    (map_listing_fault?_settled h hready .start)
  simpa [List.filterMap_map, List.map_filterMap, Function.comp_def, AssemblyFault.notice]
    using hfaults

end Node

/-! ### Runs -/

namespace Assembly

open Node

/-- Whether two runs, from some stage on, come to the same with findings that say the same. -/
def Agree (findings findings' : List Finding) (outcome outcome' : Except AssemblyFailure Image) :
    Prop :=
  outcome' = outcome ∧ List.Forall₂ Notice.Echoes (findings.flatMap Finding.notices)
    (findings'.flatMap Finding.notices)

variable {findings findings' : List Finding} {outcome outcome' : Except AssemblyFailure Image}

/-- Two stages with findings that say the same come to the same if what follows them does. -/
theorem Goes.agree {α : Type} {stage : Stage} {result result' : StageResult α}
    {next next' : α → Account}
    (hnotices : List.Forall₂ Notice.Echoes result.notices result'.notices)
    (hnext : ∀ {product product' findings findings' outcome outcome'},
      result.outcome = .ok product → result'.outcome = .ok product' →
        next product findings outcome → next' product' findings' outcome' →
          Agree findings findings' outcome outcome')
    (h : Goes stage result next findings outcome)
    (h' : Goes stage result' next' findings' outcome') :
    Agree findings findings' outcome outcome' := by
  have herrors : result'.errors = result.errors := Notice.countP_isError_of_echoes hnotices
  rcases h.cases_of_errors_eq herrors h' with
    ⟨rfl, rfl, hsame⟩ | ⟨_, _, _, _, hout, hout', rfl, rfl, hrest, hrest'⟩
  · -- both stages fail with as many errors
    refine ⟨hsame, ?_⟩
    rwa [List.flatMap_singleton, List.flatMap_singleton]
  · -- both go on, with what follows behind their notices
    obtain ⟨hsame, hechoes⟩ := hnext hout hout' hrest hrest'
    refine ⟨hsame, ?_⟩
    rw [List.flatMap_cons, List.flatMap_cons]
    exact List.rel_append hnotices hechoes

variable {tree tree' root root' : Node}

/-- Symbol resolution and encoding agree about trees with the same texts, if nothing but operands
    that do not fit is left to be wrong with their statements. -/
theorem RunResolution.agree (h : RunResolution root findings outcome)
    (h' : RunResolution root' findings' outcome') (halike : root.Alike SameText root')
    (hready : ∀ symbols, (SymbolTable.build root).outcome = .ok symbols →
      ∀ node ∈ root.children, node.Encodable symbols) :
    Agree findings findings' outcome outcome' := by
  -- the labels are the same, so statements settle to the same
  refine Goes.agree (build_echoes halike) ?_ h h'
  rintro symbols symbols' _ _ _ _ hsymbols hsymbols' ⟨encoded, hencode, hgoes⟩
    ⟨encoded', hencode', hgoes'⟩
  have hchildren := settlesTo_of_build halike.renames (Set.injOn_id _) hsymbols hsymbols'
  have hready' := hready symbols hsymbols
  have hown : ∀ node ∈ root.children, node.RecordsOwnFormat :=
    fun node hnode => (hready' node hnode).recordsOwnFormat
  have hproduct := (encode_settled hchildren hown hencode hencode').2
  -- the words are the same, as nothing is left to be refused
  refine Goes.agree (encode_echoes hchildren hready' hencode hencode') ?_ hgoes hgoes'
  rintro image image' _ _ _ _ himage himage' ⟨rfl, rfl⟩ ⟨rfl, rfl⟩
  refine ⟨?_, .nil⟩
  rw [← (StageResult.outcome_eq_ok_iff.mp himage).2, ← (StageResult.outcome_eq_ok_iff.mp himage').2,
    hproduct]

/-- **The stages behind reading agree about trees with the same texts**, if one of them comes from a
    source. -/
theorem RunAnalysis.agree {source : String} {result : StageResult Node}
    (hparse : parse source = .ok result) (hout : result.outcome = .ok tree)
    (h : RunAnalysis tree findings outcome) (h' : RunAnalysis tree' findings' outcome')
    (halike : tree.Alike SameText tree') : Agree findings findings' outcome outcome' := by
  refine Goes.agree (regionNotices_echoes halike.children Iff.rfl) ?_ h h'
  intro root root' _ _ _ _ hroot hroot' hrun hrun'
  -- behind the analysis only operands that do not fit are left to be wrong
  have hready : ∀ symbols, (SymbolTable.build root).outcome = .ok symbols →
      ∀ node ∈ root.children, node.Encodable symbols := fun symbols hsymbols =>
    encodable_of_stagesOf? (stagesOf?_eq_some_iff.mpr ⟨result, tree, hparse, hout, hroot, hsymbols⟩)
  obtain ⟨-, rfl⟩ := StageResult.outcome_eq_ok_iff.mp hroot
  obtain ⟨-, rfl⟩ := StageResult.outcome_eq_ok_iff.mp hroot'
  exact RunResolution.agree hrun hrun'
    (halike.analyze id fun _ _ htext => htext.recordFormat) hready

end Assembly

end LC3
