import LC3.Proofs.Accounting
import LC3.Proofs.Blame
import LC3.Proofs.Carets
import LC3.Proofs.RegionSequence
import LC3.Proofs.WrittenNumbers

namespace LC3

/-!
# Where diagnostics point

Whatever a stage finds, it finds at a token of the source that has what the report complains about:
the name of the statement that is misplaced, the label that is not defined, the number that does not
fit. The report shows the line of this token, and its caret stands under the token.

* `Token.Means`, `Node.ReadFrom` — what the tokens of a source are read as.
* `AssemblyError.IsAbout`, `Problem.IsAbout` — whether a token has what is reported.
* `Notice.Blames` — notices at a token that they are about.
* `Node.ReadFrom.blames_analyze`, `Node.ReadFrom.blames_build`, `Assembly.blames_encode` — what the
  stages behind reading find.
* `Assembly.Run.blames` — what a run finds.
* `assemble_points` — what the diagnostics of an assembly show.
-/

/-! ### Tokens and nodes -/

/-- The word that a token of a source is read as, if it is a number. -/
inductive Token.Means (token : Token) (tokens : List Token) : Word → Prop where
  | hex {word : Word} (h : token.SpellsHex word) : Means token tokens word
  | decimal {v : Int} (h : token.Writes tokens v) : Means token tokens (BitVec.ofInt 16 v)

namespace Node

variable {root root' : Node} {tokens : List Token}

/-- Whether a token of a source tells what a node is, and which number it is if it is one. -/
structure Kind.IsReadIn (kind : Kind) (tokens : List Token) (token : Token) : Prop where
  read : kind.IsReadFrom token
  number : ∀ value, kind = .number value → token.Means tokens value

/-- Whether the nodes of a tree below its top, but for flags, are read from some tokens. -/
def ReadFrom (root : Node) (tokens : List Token) : Prop :=
  ∀ node ∈ walkAll root.children, node.isFlags = false →
    ∃ token ∈ tokens, node.token? = some token ∧ node.kind.IsReadIn tokens token

/-- **The tree of a source that can be read is read from its tokens.** -/
theorem readFrom_of_parse {source : String} {result : StageResult Node}
    (hparse : parse source = .ok result) (hout : result.outcome = .ok root) :
    root.ReadFrom (Lexer.ofSource source).tokens.1 := by
  obtain ⟨nodes, rfl, hnumbers⟩ := exists_built hparse hout Grammar.builds_keepsNumbers
  intro node hnode hflags
  have hwalk : node ∈ (Node.root nodes).walk := by
    rw [walk_eq]
    exact List.mem_cons_of_mem _ hnode
  obtain ⟨token, htoken, hread⟩ := isRead_of_parse hparse hout node hnode hflags
  refine ⟨token, mem_tokens_of_mem_walk hparse hout hwalk hflags htoken, htoken, hread, ?_⟩
  -- a number also tells the word that its digits are read as
  intro value hkind
  have hnumber := hread
  rw [hkind] at hnumber
  rcases hnumber with hdigits | hhex
  · -- decimal, with a sign at most in front
    obtain ⟨v, hwrites, hvalue⟩ := hnumbers.numbers node hnode token htoken hdigits
    obtain rfl := Kind.number.inj (hkind.symm.trans hvalue)
    exact .decimal hwrites
  · -- hexadecimal, in the token itself
    exact .hex hhex

/-- A format that is recorded does not change what a node is read from. -/
theorem Kind.IsReadIn.recordFormat {node : Node} {token : Token}
    (h : node.kind.IsReadIn tokens token) : node.recordFormat.kind.IsReadIn tokens token := by
  rcases recordFormat_cases node with hsame | ⟨_, _, _, _, hkind, hsame⟩
  · rw [hsame]
    exact h
  · have hread := h.read
    rw [hkind] at hread
    rw [hsame]
    exact ⟨hread, nofun⟩

/-- The analysis changes nothing about what a tree is read from. -/
theorem ReadFrom.analyze (h : root.ReadFrom tokens) (hout : root.analyze.outcome = .ok root') :
    root'.ReadFrom tokens := by
  unfold ReadFrom
  rw [children_of_analyze hout]
  intro node hnode hflags
  obtain ⟨before, hbefore, rfl | rfl⟩ := exists_mem_walkAll_recordFormat hnode
  · exact h _ hbefore hflags
  · rw [isFlags_recordFormat] at hflags
    obtain ⟨token, hmem, htoken, hread⟩ := h before hbefore hflags
    rw [token?_recordFormat]
    exact ⟨token, hmem, htoken, hread.recordFormat⟩

end Node

/-! ### Problems and tokens -/

/-- Whether a token is the name of a statement that has some formats. Reports call an instruction as
    it is written. -/
inductive Token.NamesStatement (token : Token) : String → List Format → Prop where
  | instruction {mnemonic : Mnemonic} {flags? : Option Flags}
    (h : token.NamesInstruction mnemonic flags?) : NamesStatement token token.text mnemonic.formats
  | directive {directive : Directive} (h : token.NamesDirective directive) :
    NamesStatement token (toString directive) directive.formats

/-- Whether a token of a source has what an assembly error complains about. -/
def AssemblyError.IsAbout (error : AssemblyError) (tokens : List Token) (token : Token) : Prop :=
  match error with
  | instructionOutsideRegion => ∃ mnemonic flags?, token.NamesInstruction mnemonic flags?
  | memoryOutsideRegion directive => token.NamesDirective directive
  | nestedOrigin | unclosedOrigin => token.NamesDirective .orig
  | unopenedEnd => token.NamesDirective .endRegion
  | noMatchingFormat name candidates =>
    ∃ formats, token.NamesStatement name formats ∧ candidates = formats.map (·.display name)
  | duplicateLabel name _ | undefinedLabel name | unaddressedLabel name =>
    token.kind = .word ∧ token.text = name
  | offsetOutOfRange _ _ => token.NamesLabel ∨ ∃ value, token.Means tokens value
  | immediateOutOfRange value range =>
    ∃ word, token.Means tokens word ∧ value = range.signedness.read word

/-- Whether a token of a source has what is reported. -/
def Problem.IsAbout (problem : Problem) (tokens : List Token) (token : Token) : Prop :=
  match problem with
  | syntactic error => error.IsAbout token
  | assembly error => error.IsAbout tokens token
  | range _ | remark _ _ => False

/-- Whether a notice is at one of some tokens and about it. -/
def Notice.Blames (notice : Notice) (tokens : List Token) : Prop :=
  ∃ token ∈ tokens, notice.location? = some token.location ∧ notice.problem.IsAbout tokens token

/-! ### Stages -/

/-- What cannot be read is found at the token in the way. -/
theorem blames_of_parse {source : String} {result : StageResult Node}
    (hparse : parse source = .ok result) :
    ∀ notice ∈ result.notices, notice.Blames (Lexer.ofSource source).tokens.1 := by
  obtain ⟨context, result', happly, hreads, hparse', -, hnotices⟩ := exists_parse source
  obtain rfl := Except.ok.inj (hparse.symm.trans hparse')
  intro notice hnotice
  rw [hnotices] at hnotice
  obtain ⟨fault, hfault, rfl⟩ := List.mem_map.mp hnotice
  obtain ⟨token, hmem, hplace, habout⟩ := Context.blames_of_apply happly hreads fault hfault
  exact ⟨token, hmem, congrArg some hplace, habout⟩

namespace Node

variable {root node : Node} {tokens : List Token} {token : Token} {error : AssemblyError}

/-- An error at a node is about its token if it is about all tokens that such a node can be read
    from. -/
theorem ReadFrom.blames {kind : Kind} (h : root.ReadFrom tokens)
    (hnode : node ∈ walkAll root.children) (hkind : node.kind = kind)
    (hplain : ∀ flags, kind ≠ .flags flags) (severity : Severity)
    (habout : ∀ token, node.token? = some token → kind.IsReadIn tokens token →
      error.IsAbout tokens token) :
    (Notice.mk severity (.assembly error) node.location?).Blames tokens := by
  subst hkind
  obtain ⟨token, hmem, htoken, hread⟩ := h node hnode (isFlags_eq_false_iff.mpr hplain)
  refine ⟨token, hmem, ?_, habout token htoken hread⟩
  show node.token?.map Token.location = some token.location
  rw [htoken]
  rfl

/-- A statement in the wrong place is named by its token. -/
theorem isAbout_of_misplacement? {before : List Node} (h : misplacement? before node = some error)
    (hread : node.kind.IsReadFrom token) : error.IsAbout tokens token := by
  unfold misplacement? at h
  split at h
  case h_1 hkind =>
    -- an `.ORIG` inside a region
    obtain rfl := Option.some.inj h
    rw [hkind] at hread
    exact hread
  case h_2 hkind =>
    -- an `.END` outside of regions
    obtain rfl := Option.some.inj h
    rw [hkind] at hread
    exact hread
  case h_3 directive _ hkind =>
    -- a directive that places words outside of regions
    obtain ⟨-, h⟩ := Option.ite_none_right_eq_some.mp h
    obtain rfl := Option.some.inj h
    rw [hkind] at hread
    exact hread
  case h_4 hkind =>
    -- an instruction outside of regions
    obtain rfl := Option.some.inj h
    rw [hkind] at hread
    exact ⟨_, _, hread⟩
  case h_5 => cases h

/-- A statement is called by its token or by what the token means. -/
theorem namesStatement_of_statement? {name : String} {formats : List Format}
    (h : node.statement? = some (name, formats)) (htoken : node.token? = some token)
    (hread : node.kind.IsReadFrom token) : token.NamesStatement name formats := by
  unfold statement? at h
  split at h
  case h_1 hkind =>
    rw [htoken] at h
    rw [hkind] at hread
    cases h
    exact .instruction hread
  case h_2 hkind =>
    rw [hkind] at hread
    cases h
    exact .directive hread
  case h_3 => cases h

/-- A statement with the wrong operands is named by its token. -/
theorem isAbout_of_mismatch? (h : node.mismatch? = some error) (htoken : node.token? = some token)
    (hread : node.kind.IsReadFrom token) : error.IsAbout tokens token := by
  obtain ⟨⟨name, formats⟩, hstatement, hnone⟩ := Option.bind_eq_some_iff.mp h
  obtain ⟨-, herror⟩ := Option.ite_none_left_eq_some.mp hnone
  obtain rfl := Option.some.inj herror
  exact ⟨formats, namesStatement_of_statement? hstatement htoken hread, rfl⟩

/-- The region that is open behind some statements was opened by one of them. -/
theorem exists_of_mem_warning? {nodes : List Node} {notice : Notice}
    (h : notice ∈ (regionBehind nodes).warning?.toList) :
    ∃ origin ∈ nodes, origin.kind = .directive .orig ∧
      notice = ⟨.warning, .assembly .unclosedOrigin, origin.location?⟩ := by
  unfold regionBehind at h
  cases hopener : opener? nodes with
  | none =>
    rw [hopener] at h
    cases h
  | some origin =>
    rw [hopener] at h
    obtain rfl := List.mem_singleton.mp h
    have hmem : origin ∈ nodes :=
      (List.rtakeWhile_suffix _ nodes).subset (List.mem_of_find?_eq_some hopener)
    exact ⟨origin, hmem, isOrigin_iff.mp (List.find?_some hopener), rfl⟩

/-- What is wrong with statements is found at their names. -/
theorem ReadFrom.blames_analyze (h : root.ReadFrom tokens)
    (hplain : ∀ node ∈ root.children, node.isFlags = false) :
    ∀ notice ∈ root.analyze.notices, notice.Blames tokens := by
  -- errors statement by statement, and the warning at the end
  have hnotices : root.analyze.notices =
      (root.children.mapIdx fun i node => reports (root.children.take i) node).flatten ++
        (regionBehind root.children).warning?.toList :=
    regionNotices_regionBehind [] root.children
  have hwalk : ∀ node ∈ root.children, node ∈ walkAll root.children :=
    fun node hnode => (sublist_walkAll root.children).subset hnode
  intro notice hnotice
  rw [hnotices] at hnotice
  rcases List.mem_append.mp hnotice with hnotice | hwarning
  · obtain ⟨_, hreports, hnotice⟩ := List.mem_flatten.mp hnotice
    obtain ⟨i, hi, rfl⟩ := List.mem_mapIdx.mp hreports
    obtain ⟨error, herror, rfl⟩ := List.mem_map.mp hnotice
    have hnode : root.children[i] ∈ root.children := List.getElem_mem hi
    have hflags := isFlags_eq_false_iff.mp (hplain _ hnode)
    refine h.blames (hwalk _ hnode) rfl hflags .error fun token htoken hread => ?_
    rcases List.mem_append.mp herror with herror | herror
    · exact isAbout_of_misplacement? (Option.mem_toList.mp herror) hread.read
    · exact isAbout_of_mismatch? (Option.mem_toList.mp herror) htoken hread.read
  · obtain ⟨origin, horigin, hkind, rfl⟩ := exists_of_mem_warning? hwarning
    exact h.blames (hwalk _ horigin) hkind (by simp) .warning fun _ _ hread => hread.read

/-- What is wrong with labels is found where they are written. -/
theorem ReadFrom.blames_build (h : root.ReadFrom tokens) (hroot : root.kind = .root) :
    ∀ notice ∈ (SymbolTable.build root).notices, notice.Blames tokens := by
  intro notice hnotice
  obtain ⟨label, hlabel, hkind, error, hnames, rfl⟩ := exists_of_mem_build hnotice
  have hmem := mem_walkAll_of_mem_walk hroot hlabel (by rcases hkind with h | h <;> simp [h])
  -- all three errors name the label, and its token is the word
  have habout : ∀ token : Token, label.token? = some token → token.kind = .word →
      error.IsAbout tokens token := by
    intro token htoken hword
    have htext : token.text = label.text := by rw [text, htoken]
    cases error with
    | duplicateLabel | undefinedLabel | unaddressedLabel =>
      exact ⟨hword, htext.trans (Eq.symm hnames)⟩
    | _ => cases hnames
  rcases hkind with hkind | hkind
  · exact h.blames hmem hkind (by simp) .error fun token htoken hread =>
      habout token htoken hread.read
  · exact h.blames hmem hkind (by simp) .error fun token htoken hread =>
      habout token htoken hread.read.1

/-- An operand that does not fit is found where it is written. -/
theorem ReadFrom.blames_misfits {next : Word} {symbols : SymbolTable} {fault : AssemblyFault}
    (h : root.ReadFrom tokens) (hnode : node ∈ root.children)
    (hmisfits : node.Misfits next symbols fault) : fault.notice.Blames tokens := by
  cases hmisfits with
  | distance _ hmeasures hdenotes _ =>
    have hmem := mem_walkAll_of_mem_children hnode (mem_of_measures hmeasures)
    cases hdenotes with
    | number hkind =>
      exact h.blames hmem hkind (by simp) .error fun _ _ hread => .inr ⟨_, hread.number _ rfl⟩
    | label hkind _ => exact h.blames hmem hkind (by simp) .error fun _ _ hread => .inl hread.read
  | number _ hpacks hkind _ =>
    have hmem := mem_walkAll_of_mem_children hnode (mem_of_packs hpacks)
    exact h.blames hmem hkind (by simp) .error fun _ _ hread => ⟨_, hread.number _ rfl, rfl⟩

end Node

namespace Assembly

/-- What encoding finds, it finds at operands that do not fit. -/
theorem blames_encode {source : String} {symbols : SymbolTable} {root : Node}
    {encoded : StageResult Image} {tokens : List Token}
    (h : stagesOf? source = some (symbols, root)) (hread : root.ReadFrom tokens)
    (hencode : root.encode symbols = .ok encoded) :
    ∀ notice ∈ encoded.notices, notice.Blames tokens := by
  -- every fault is a misfit of some entry
  have hready := encodable_of_stagesOf? h
  obtain ⟨log, hlisting⟩ :=
    Node.encode_eq_listing (fun node hnode => (hready node hnode).recordsOwnFormat) symbols
  obtain rfl := Except.ok.inj (hencode.symm.trans hlisting)
  intro notice hnotice
  obtain ⟨fault, hfault, rfl⟩ := List.mem_map.mp hnotice
  obtain ⟨entry, hentry, hfault⟩ := List.mem_filterMap.mp hfault
  have hnode : entry.node ∈ root.children := Node.mem_of_mem_listing hentry
  have hmisfits : entry.node.Misfits entry.counter.next symbols fault :=
    (hready entry.node hnode).fault?_eq_some_iff.mp hfault
  exact hread.blames_misfits hnode hmisfits

/-- **What a run finds is found at a token of the source**, one that has what is reported. -/
theorem Run.blames {source : String} {findings : List Finding}
    {outcome : Except AssemblyFailure Image} (h : Run source findings outcome) :
    ∀ notice ∈ findings.flatMap Finding.notices,
      notice.Blames (Lexer.ofSource source).tokens.1 := by
  obtain ⟨parsed, hparse, h⟩ := h
  refine h.forall_notices (blames_of_parse hparse) fun tree _ _ htree h => ?_
  have hcomes := Node.comesFrom_of_parse hparse htree
  have hread := Node.readFrom_of_parse hparse htree
  refine Goes.forall_notices h (hread.blames_analyze hcomes.plain) fun root _ _ hroot h => ?_
  -- the analysis leaves the tokens of the tree alone
  have hcomes' := hcomes.analyze hroot
  have hread' := hread.analyze hroot
  refine Goes.forall_notices h (hread'.blames_build hcomes'.isRoot) ?_
  rintro symbols _ _ hsymbols ⟨encoded, hencode, h⟩
  have hstages : stagesOf? source = some (symbols, root) :=
    stagesOf?_eq_some_iff.mpr ⟨parsed, tree, hparse, htree, hroot, hsymbols⟩
  refine h.forall_notices (blames_encode hstages hread' hencode) ?_
  rintro _ _ _ - ⟨rfl, -⟩
  exact List.forall_mem_nil _

end Assembly

/-! ### Diagnostics -/

/-- A notice that is at a token is put into words with the place of this token. -/
theorem Notice.diagnose_eq {source : String} {notice : Notice} {token : Token}
    {place : Diagnostic.Place} (hlocation : notice.location? = some token.location)
    (hplace : token.location.place source = .ok place) :
    notice.diagnose source =
      .ok ⟨notice.severity, notice.problem.message, notice.problem.help?, some place⟩ := by
  unfold diagnose
  rw [hlocation]
  exact bind_eq_ok_iff.mpr ⟨place, hplace, rfl⟩

/-- **Diagnostics point at the token that they are about.** Every diagnostic that an assembly adds
    is about a token of the source and has its place. The report shows the line of the token, which
    is a piece of the source without the carriage returns at its end, and a caret behind one
    character for each that starts in front of the token, a tab for a tab and else a space. So the
    caret stands under the first character of the token, or just behind the line if the token ends
    it. -/
theorem assemble_points (source : String) (before : Diagnostics) :
    ∃ assembly added, assemble source before = .ok assembly ∧
      assembly.diagnostics.entries = before.entries ++ added ∧
      ∀ diagnostic ∈ added, ∃ problem : Problem,
        diagnostic.message = problem.message ∧ diagnostic.help? = problem.help? ∧
        ∃ token ∈ (Lexer.ofSource source).tokens.1,
          problem.IsAbout (Lexer.ofSource source).tokens.1 token ∧
          ∃ place shown, token.location.place source = .ok place ∧
            diagnostic.place? = some place ∧ place.PointsAt source token shown ∧
            ∃ front back, diagnostic.render =
              front ++ "\n" ++ place.picture (shown.map Diagnostic.under) ++ back := by
  obtain ⟨assembly, findings, added, hassemble, hrun, hadded, hdiagnostics⟩ :=
    Assembly.completes_assemble source before
  refine ⟨assembly, added, hassemble, ?_, fun diagnostic hdiagnostic => ?_⟩
  · rw [hdiagnostics, Diagnostics.entries_foldl_add]
  -- each diagnostic is made of a notice, which blames some token
  obtain ⟨notice, hnotice, hdiagnose⟩ := exists_mem_of_forall₂ hadded hdiagnostic
  obtain ⟨token, hmem, hlocation, habout⟩ := hrun.blames notice hnotice
  obtain ⟨place, shown, hplace, hpoints⟩ := (Lexer.standsIn_of_mem_tokens hmem).exists_pointsAt
  obtain rfl := Except.ok.inj (hdiagnose.symm.trans (Notice.diagnose_eq hlocation hplace))
  exact ⟨notice.problem, rfl, rfl, token, hmem, habout, place, shown, hplace, rfl, hpoints,
    hpoints.exists_render rfl⟩

end LC3
