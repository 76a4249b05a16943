import LC3.Proofs.Accounting
import LC3.Proofs.Following
import LC3.Proofs.Joining

namespace LC3

/-!
# Programs of blocks

Two sources that assemble on their own also assemble one behind the other, if the first one comes to
an end: its regions are closed, and no NUL cuts the source off. Nothing is carried over from the
first to the second, and nothing of the second reaches back.

* `Defines` — whether a source defines a label.
* `Assembly.Stages.join` — the stages of two sources, one behind the other.
* `Assembly.blocks_compose` — their words, labels and warnings.
-/

open Lexical

/-- Whether a source defines a label. -/
def Defines (source name : String) : Prop :=
  ∃ parsed, parse source = .ok parsed ∧ name ∈ parsed.product.definitions.map Node.text

/-- The labels that a source defines can be computed. -/
theorem defines_iff {source : String} {names : List String}
    (h : (parse source).map (fun parsed => parsed.product.definitions.map Node.text) = .ok names)
    (name : String) : Defines source name ↔ name ∈ names := by
  obtain ⟨parsed, hparse, rfl⟩ := map_eq_ok_iff.mp h
  constructor
  · rintro ⟨parsed', hparse', hname⟩
    obtain rfl := Except.ok.inj (hparse.symm.trans hparse')
    exact hname
  · exact fun hname => ⟨parsed, hparse, hname⟩

/-! ### Tables -/

namespace SymbolTable

/-- Whether a symbol table has the labels of two others, none of which is in both. -/
structure IsUnion (first second union : SymbolTable) : Prop where
  disjoint : ∀ name, first.lookup name = none ∨ second.lookup name = none
  lookup : ∀ name, union.lookup name = (first.lookup name).or (second.lookup name)
  entries : union.entries.Perm (first.entries ++ second.entries)

namespace IsUnion

variable {first second union : SymbolTable}

theorem within_left (h : IsUnion first second union) : first.Within union := by
  intro name address hlookup
  rw [h.lookup, hlookup, Option.some_or]

/-- The union has the entries of the second table. -/
theorem within_right (h : IsUnion first second union) : second.Within union := by
  intro name address hlookup
  rcases h.disjoint name with hnone | hnone
  · rw [h.lookup, hnone, Option.none_or, hlookup]
  · cases hnone.symm.trans hlookup

end IsUnion

/-- Entries with distinct names, one behind the other, make up the union of their tables. -/
theorem isUnion_ofList_append {entries entries' : List (String × Word)}
    (h : ((entries ++ entries').map Prod.fst).Nodup) :
    IsUnion (ofList entries) (ofList entries') (ofList (entries ++ entries')) := by
  have hall := entries_ofList h
  rw [List.map_append, List.nodup_append] at h
  obtain ⟨hnodup, hnodup', hdisjoint⟩ := h
  have hfirst := entries_ofList hnodup
  have hsecond := entries_ofList hnodup'
  rw [List.reverse_append, ← hfirst, ← hsecond] at hall
  -- a name that is found is one of the entries
  have hfound : ∀ {entries : List (String × Word)} {name}, (entries.map Prod.fst).Nodup →
      name ∉ entries.map Prod.fst → (ofList entries).lookup name = none := by
    intro entries name hnodup hname
    rw [SymbolTable.lookup, entries_ofList hnodup, List.lookup_eq_none_iff]
    intro entry hentry
    rw [bne_iff_ne]
    rintro rfl
    exact hname (List.mem_map_of_mem (List.mem_reverse.mp hentry))
  -- no name is in both tables, so it is missing from one of them
  have hnone : ∀ name, (ofList entries).lookup name = none ∨
      (ofList entries').lookup name = none := by
    intro name
    by_cases hname : name ∈ entries.map Prod.fst
    · exact .inr (hfound hnodup' fun hname' => hdisjoint name hname name hname' rfl)
    · exact .inl (hfound hnodup hname)
  refine ⟨hnone, fun name => ?_, ?_⟩
  · -- the second table is in front, and at most one of them has the name
    have happend : (ofList (entries ++ entries')).lookup name =
        ((ofList entries').lookup name).or ((ofList entries).lookup name) := by
      rw [SymbolTable.lookup, hall, List.lookup_append]
      rfl
    rw [happend]
    rcases hnone name with h | h <;> rw [h, Option.none_or, Option.or_none]
  · rw [hall]
    exact List.perm_append_comm

end SymbolTable

/-! ### Names -/

namespace Node

/-- The texts of all nodes of a kind in some trees. -/
def names (kind : Kind) (nodes : List Node) : List String :=
  ((walkAll nodes).filter (·.kind = kind)).map text

/-- The names of two lists of nodes are those of both. -/
theorem names_append (kind : Kind) (first rest : List Node) :
    names kind (first ++ rest) = names kind first ++ names kind rest := by
  rw [names, walkAll_append, List.filter_append, List.map_append]
  rfl

@[simp] theorem names_lowered (depth : Depth) (kind : Kind) (nodes : List Node) :
    names kind (nodes.map (lowered depth)) = names kind nodes := by
  simp only [names, walkAll_map_lowered, filter_kind_lowered, List.map_map, Function.comp_def,
    text_lowered]

/-- A node of another kind has no name of its own. -/
theorem names_singleton {kind : Kind} {node : Node} (h : node.kind ≠ kind) :
    names kind [node] = names kind node.children := by
  rw [names, walkAll_singleton, List.filter_cons_of_neg (by simpa using h)]
  rfl

/-- What leaves the names in each tree alone leaves those in some trees alone. -/
theorem names_map {kind : Kind} {change : Node → Node}
    (h : ∀ node, names kind [change node] = names kind [node]) (nodes : List Node) :
    names kind (nodes.map change) = names kind nodes := by
  induction nodes with
  | nil => rfl
  | cons node nodes ih =>
    rw [List.map_cons, ← List.singleton_append, names_append, h, ih, ← names_append]
    rfl

/-- Recording formats leaves the names of labels alone. -/
theorem names_recordFormat {kind : Kind} (nodes : List Node)
    (hkind : kind = .labelDefinition ∨ kind = .labelReference) :
    names kind (nodes.map recordFormat) = names kind nodes := by
  refine names_map (fun node => ?_) nodes
  rcases recordFormat_cases node with h | ⟨mnemonic, recorded?, flags?, format, hinstruction, h⟩
  · rw [h]
  · -- an instruction is no label before or after
    rw [h, names_singleton, names_singleton]
    · rw [hinstruction]
      rcases hkind with rfl | rfl <;> simp
    · rcases hkind with rfl | rfl <;> simp

/-- The definitions of a program are those among its statements. -/
theorem definitions_root (children : List Node) :
    (root children).definitions.map text = names .labelDefinition children := by
  rw [definitions, root, walk, List.filter_cons_of_neg (by simp)]
  rfl

/-- The references of a program are those among its statements. -/
theorem references_root (children : List Node) :
    (root children).references.map text = names .labelReference children := by
  rw [references, root, walk, List.filter_cons_of_neg (by simp)]
  rfl

/-- The names of a program are in order exactly if its definitions are distinct and every label that
    is used is defined. -/
theorem nameNotices_root_eq_nil_iff {children : List Node} :
    (root children).nameNotices = [] ↔ (names .labelDefinition children).Nodup ∧
      ∀ name ∈ names .labelReference children, name ∈ names .labelDefinition children := by
  rw [nameNotices_eq_nil_iff, definitions_root, ← references_root, List.forall_mem_map]

/-- Two programs that define different labels have their names in order together if each of them
    has. -/
theorem nameNotices_append {nodes nodes' : List Node} (depth : Depth)
    (h : (root nodes).nameNotices = []) (h' : (root nodes').nameNotices = [])
    (hnames : ∀ name ∈ names .labelDefinition nodes, name ∉ names .labelDefinition nodes') :
    (root (nodes ++ nodes'.map (lowered depth))).nameNotices = [] := by
  obtain ⟨hnodup, hdefined⟩ := nameNotices_root_eq_nil_iff.mp h
  obtain ⟨hnodup', hdefined'⟩ := nameNotices_root_eq_nil_iff.mp h'
  rw [nameNotices_root_eq_nil_iff, names_append, names_append, names_lowered, names_lowered]
  refine ⟨List.nodup_append.mpr ⟨hnodup, hnodup', ?_⟩, fun name hname => ?_⟩
  · rintro name hname _ hname' rfl
    exact hnames name hname hname'
  · exact List.mem_append.mpr ((List.mem_append.mp hname).imp (hdefined name) (hdefined' name))

end Node

/-- The labels of two programs, one behind the other: those of the first, and those of the second
    as if it stood alone. -/
theorem Binder.ofProgram_append {nodes nodes' : List Node} (depth : Depth)
    (h : (ofProgram (.root nodes)).dangling = [])
    (hregion : (Node.regionNotices .outside nodes').countP Notice.isError = 0) :
    (ofProgram (.root (nodes ++ nodes'.map (Node.lowered depth)))).bound =
        (ofProgram (.root nodes)).bound ++ (ofProgram (.root nodes')).bound ∧
      (ofProgram (.root (nodes ++ nodes'.map (Node.lowered depth)))).dangling =
        (ofProgram (.root nodes')).dangling.map (Node.lowered depth) := by
  obtain ⟨hnone, hpending⟩ := dangling_ofProgram_eq_nil_iff.mp h
  -- the walk over the first program leaves no label behind
  have hfront : Follows depth (nodes.foldl visit start).bound .outside start
      (nodes.foldl visit start) :=
    ⟨fun h => absurd rfl h, hpending, (List.append_nil _).symm, hnone⟩
  have hfollows := hfront.foldl_visit hregion
  rw [← List.foldl_append] at hfollows
  refine ⟨hfollows.bound, ?_⟩
  show (List.foldl visit start (nodes ++ nodes'.map (Node.lowered depth))).dangling ++
    (List.foldl visit start (nodes ++ nodes'.map (Node.lowered depth))).pending = _
  rw [hfollows.dangling, hfollows.pending, ← List.map_append]
  rfl

namespace Assembly

variable {first second : String} {tree tree' root root' : Node} {symbols symbols' : SymbolTable}
  {image image' : Image}

/-- The tree that is analyzed has a root of its own. -/
theorem Stages.root_eq (h : Stages first tree root symbols image) :
    tree = .root tree.children ∧ root = .root (tree.children.map Node.recordFormat) := by
  obtain ⟨nodes, -, rfl⟩ := TokenLine.exists_parse_iff.mp h.parsed
  obtain ⟨-, hproduct⟩ := StageResult.outcome_eq_ok_iff.mp h.analyzed
  exact ⟨rfl, hproduct.symm⟩

/-- The analysis of two programs, one behind the other. -/
private theorem analyze_append {nodes nodes' : List Node} (depth : Depth)
    (h : (Node.regionNotices .outside nodes).countP Notice.isError = 0)
    (h' : (Node.regionNotices .outside nodes').countP Notice.isError = 0)
    (hclosed : nodes.foldl Region.after .outside = .outside) :
    (Node.root (nodes ++ nodes'.map (Node.lowered depth))).analyze.outcome =
      .ok (.root (nodes.map Node.recordFormat ++
        (nodes'.map Node.recordFormat).map (Node.lowered depth))) := by
  refine StageResult.outcome_eq_ok_iff.mpr ⟨?_, ?_⟩
  · -- the second program starts outside of every region, as it does on its own
    have hmoved : (Node.regionNotices .outside (nodes'.map (Node.lowered depth))).countP
        Notice.isError = 0 :=
      (Node.countP_regionNotices_lowered depth .outside nodes').trans h'
    show (Node.regionNotices .outside (nodes ++ _)).countP Notice.isError = 0
    rw [Node.countP_regionNotices_append, h, hclosed, hmoved]
  · have hrecorded : (nodes'.map (Node.lowered depth)).map Node.recordFormat =
        (nodes'.map Node.recordFormat).map (Node.lowered depth) := by
      simp only [List.map_map, Function.comp_def, Node.recordFormat_lowered]
    show Node.root ((nodes ++ nodes'.map (Node.lowered depth)).map Node.recordFormat) = _
    rw [List.map_append, hrecorded]

/-- The symbol tables of two programs, one behind the other. -/
private theorem build_append {nodes nodes' : List Node} {table table' : SymbolTable} (depth : Depth)
    (h : (SymbolTable.build (.root nodes)).outcome = .ok table)
    (h' : (SymbolTable.build (.root nodes')).outcome = .ok table')
    (hregion : (Node.regionNotices .outside nodes').countP Notice.isError = 0)
    (hnames : ∀ name ∈ Node.names .labelDefinition nodes,
      name ∉ Node.names .labelDefinition nodes') :
    ∃ union, (SymbolTable.build (.root (nodes ++ nodes'.map (Node.lowered depth)))).outcome =
        .ok union ∧ table.IsUnion table' union := by
  obtain ⟨hordered, hdangling, rfl⟩ := SymbolTable.outcome_build_eq_ok h
  obtain ⟨hordered', hdangling', rfl⟩ := SymbolTable.outcome_build_eq_ok h'
  have hjoined := Node.nameNotices_append depth hordered hordered' hnames
  obtain ⟨hbound, hnone⟩ := Binder.ofProgram_append depth hdangling hregion
  rw [hdangling', List.map_nil] at hnone
  -- the labels of both are among the definitions, which are distinct
  have hnodup := (Node.nameNotices_eq_nil_iff.mp hjoined).1.sublist
    (Binder.bound_ofProgram_sublist _)
  refine ⟨_, SymbolTable.outcome_build hjoined hnone, ?_⟩
  rw [hbound] at hnodup ⊢
  exact SymbolTable.isUnion_ofList_append hnodup

/-- The words of two programs, one behind the other. -/
private theorem emits_append {nodes nodes' : List Node} {table table' union : SymbolTable}
    {words words' : List Word} (depth : Depth) (h : Node.Emits table .start nodes words)
    (h' : Node.Emits table' .start nodes' words') (hunion : table.IsUnion table' union)
    (hregion : (Node.regionNotices .outside nodes).countP Notice.isError = 0)
    (hregion' : (Node.regionNotices .outside nodes').countP Notice.isError = 0) :
    Node.Emits union .start (nodes ++ nodes'.map (Node.lowered depth)) (words ++ words') := by
  have hfirst : Node.Emits union .start nodes words := by
    have hsame := h.lowered .zero hunion.within_left (fun _ => rfl) hregion
    rwa [← Node.loweredAll_eq_map, Node.loweredAll_zero] at hsame
  exact hfirst.append (h'.lowered depth hunion.within_right (fun h => absurd rfl h) hregion')

/-- **The stages of two sources**, one behind the other. -/
theorem Stages.join (h : Stages first tree root symbols image)
    (h' : Stages second tree' root' symbols' image')
    (hnul : straysNul .code first.toList = false)
    (hclosed : tree.children.foldl Region.after .outside = .outside)
    (hnames : ∀ name ∈ tree.definitions.map Node.text, name ∉ tree'.definitions.map Node.text) :
    ∃ depth joined union,
      Stages (first ++ "\n" ++ second)
        (.root (tree.children ++ tree'.children.map (Node.lowered depth))) joined union
        ⟨image.words ++ image'.words⟩ ∧
      symbols.IsUnion symbols' union := by
  obtain ⟨depth, hparsed⟩ := exists_parse_join hnul h.parsed h'.parsed
  -- neither program has errors, and recording formats adds none
  have hregion := (StageResult.outcome_eq_ok_iff.mp h.analyzed).1
  have hregion' := (StageResult.outcome_eq_ok_iff.mp h'.analyzed).1
  have hrecorded := countP_regionNotices h.analyzed
  have hrecorded' := countP_regionNotices h'.analyzed
  have hresolved := h.resolved
  have hresolved' := h'.resolved
  have hencoded := Node.Emits.exists_encode_iff.mp h.encoded
  have hencoded' := Node.Emits.exists_encode_iff.mp h'.encoded
  obtain ⟨htree, rfl⟩ := h.root_eq
  obtain ⟨htree', rfl⟩ := h'.root_eq
  -- the names that the analysis leaves are those of the parsed trees
  rw [htree, htree', Node.definitions_root, Node.definitions_root,
    ← Node.names_recordFormat tree.children (.inl rfl),
    ← Node.names_recordFormat tree'.children (.inl rfl)] at hnames
  obtain ⟨union, hbuilt, hunion⟩ := build_append depth hresolved hresolved' hrecorded' hnames
  exact ⟨depth, _, union, ⟨hparsed, analyze_append depth hregion hregion' hclosed, hbuilt,
    Node.Emits.exists_encode_iff.mpr
      (emits_append depth hencoded hencoded' hunion hrecorded hrecorded')⟩, hunion⟩

/-- The only warning of a source that assembles is that of the region that is open behind its last
    statement. -/
private theorem exists_warning_iff {source : String} {region : Region}
    {raised : List Diagnostic} (h : Notice.Diagnosed source region.warning?.toList raised) :
    (∃ diagnostic ∈ raised, diagnostic.severity = .warning) ↔ region ≠ .outside := by
  cases region with
  | outside =>
    cases h
    simp
  | inside origin? =>
    cases h with
    | cons hwarning hrest =>
      exact iff_of_true ⟨_, List.mem_cons_self, Notice.severity_of_diagnose hwarning⟩
        Region.noConfusion

/-- A source that raises no warning of an unclosed region has none. -/
private theorem eq_outside_of_closed {source : String} {region : Region}
    {raised : List Diagnostic} (h : Notice.Diagnosed source region.warning?.toList raised)
    (hclosed : ∀ diagnostic ∈ raised, diagnostic.severity = .warning →
      diagnostic.message ≠ AssemblyError.unclosedOrigin.message) : region = .outside := by
  cases region with
  | outside => rfl
  | inside origin? =>
    cases h with
    | cons hwarning hrest =>
      obtain ⟨place?, rfl⟩ := Notice.exists_place_of_diagnose hwarning
      exact absurd rfl (hclosed _ List.mem_cons_self rfl)

/-- **Blocks compose.** If two sources assemble on their own, the first one raises no warning of a
    region that is never closed and has no NUL outside of literals and comments, and no label is
    defined in both, then the first, a line break and the second assemble together, whatever was
    recorded before. The words are those of the first and then those of the second, the symbol table
    is the union of theirs, and a warning is raised exactly if the second one raises one. -/
theorem blocks_compose {first second : String} {before before' : Diagnostics}
    {assembly assembly' : Assembly} {image image' : Image}
    (h : assemble first before = .ok assembly) (himage : assembly.outcome = .ok image)
    (h' : assemble second before' = .ok assembly') (himage' : assembly'.outcome = .ok image')
    (hclosed : ∀ diagnostic ∈ assembly.raised before, diagnostic.severity = .warning →
      diagnostic.message ≠ AssemblyError.unclosedOrigin.message)
    (hnul : straysNul .code first.toList = false)
    (hnames : ∀ name, Defines first name → ¬ Defines second name) (diagnostics : Diagnostics) :
    ∃ joined tree root symbols tree' root' symbols' tree'' root'' union,
      assemble (first ++ "\n" ++ second) diagnostics = .ok joined ∧
      joined.outcome = .ok ⟨image.words ++ image'.words⟩ ∧
      Stages first tree root symbols image ∧ Stages second tree' root' symbols' image' ∧
      Stages (first ++ "\n" ++ second) tree'' root'' union ⟨image.words ++ image'.words⟩ ∧
      symbols.IsUnion symbols' union ∧
      ((∃ diagnostic ∈ joined.raised diagnostics, diagnostic.severity = .warning) ↔
        ∃ diagnostic ∈ assembly'.raised before', diagnostic.severity = .warning) := by
  obtain ⟨tree, root, symbols, hstages⟩ := exists_stages h himage
  obtain ⟨tree', root', symbols', hstages'⟩ := exists_stages h' himage'
  -- what a source raises tells whether a region is open behind it
  obtain ⟨_, hagain, -, hraised⟩ := hstages.exists_assemble before
  obtain rfl := Except.ok.inj (h.symm.trans hagain)
  obtain ⟨_, hagain', -, hraised'⟩ := hstages'.exists_assemble before'
  obtain rfl := Except.ok.inj (h'.symm.trans hagain')
  have hregion := eq_outside_of_closed hraised hclosed
  -- the definitions of the parsed tree are what the source defines
  have hdefines : ∀ {source tree root symbols image}, Stages source tree root symbols image →
      ∀ name ∈ tree.definitions.map Node.text, Defines source name := by
    intro source tree root symbols image hstages name hname
    obtain ⟨parsed, hparse, hout⟩ := hstages.parsed
    obtain ⟨-, rfl⟩ := StageResult.outcome_eq_ok_iff.mp hout
    exact ⟨parsed, hparse, hname⟩
  have hdisjoint : ∀ name ∈ tree.definitions.map Node.text,
      name ∉ tree'.definitions.map Node.text := fun name hname hname' =>
    hnames name (hdefines hstages name hname) (hdefines hstages' name hname')
  obtain ⟨depth, root'', union, hjoin, hunion⟩ := hstages.join hstages' hnul hregion hdisjoint
  obtain ⟨joined, hassemble, houtcome, hraised''⟩ := hjoin.exists_assemble diagnostics
  refine ⟨joined, tree, root, symbols, tree', root', symbols', _, root'', union, hassemble,
    houtcome, hstages, hstages', hjoin, hunion, ?_⟩
  -- the region behind both is the one behind the second, further down
  have hbehind : (tree.children ++ tree'.children.map (Node.lowered depth)).foldl Region.after
      .outside = (tree'.children.foldl Region.after .outside).lowered depth := by
    rw [List.foldl_append, hregion]
    exact Node.foldl_after_lowered depth .outside tree'.children
  have hopen : (tree.children ++ tree'.children.map (Node.lowered depth)).foldl Region.after
      .outside ≠ .outside ↔ tree'.children.foldl Region.after .outside ≠ .outside := by
    rw [hbehind]
    exact Region.lowered_eq_outside_iff.not
  exact (exists_warning_iff hraised'').trans (hopen.trans (exists_warning_iff hraised').symm)

/-- A block with a NUL in the comment on its last line, which has no end, and one that is never
    closed. -/
theorem blocks_compose_unclosed :
    let first := ".orig x3000\nA .stringz \"a\"\n.end ; \x00"
    let second := "B .orig x4000\nld R0, B\n.fill B"
    let image : Image := ⟨[0x3000#16, 0x61#16, 0x0#16]⟩
    let image' : Image := ⟨[0x4000#16, 0x21FF#16, 0x4000#16]⟩
    straysNul .code first.toList = false ∧ (∀ name, Defines first name → ¬ Defines second name) ∧
      ∃ joined tree root symbols tree' root' symbols' tree'' root'' union,
        assemble (first ++ "\n" ++ second) .empty = .ok joined ∧
        joined.outcome = .ok ⟨image.words ++ image'.words⟩ ∧
        Stages first tree root symbols image ∧ Stages second tree' root' symbols' image' ∧
        Stages (first ++ "\n" ++ second) tree'' root'' union ⟨image.words ++ image'.words⟩ ∧
        symbols.IsUnion symbols' union ∧
        ∃ diagnostic ∈ joined.raised .empty, diagnostic.severity = .warning := by
  intro first second image image'
  -- both blocks are run on their own, and only the second one warns
  have hfirst : (assemble first .empty).map (fun assembly =>
      (assembly.outcome, assembly.raised .empty)) = .ok (.ok image, []) := by decide +kernel
  have hsecond : (assemble second .empty).map (fun assembly =>
      (assembly.outcome, (assembly.raised .empty).map Diagnostic.severity)) =
        .ok (.ok image', [.warning]) := by decide +kernel
  obtain ⟨assembly, h, hfound⟩ := map_eq_ok_iff.mp hfirst
  obtain ⟨himage, hraised⟩ := Prod.mk.inj hfound
  obtain ⟨assembly', h', hfound'⟩ := map_eq_ok_iff.mp hsecond
  obtain ⟨himage', hraised'⟩ := Prod.mk.inj hfound'
  have hnul : straysNul .code first.toList = false := by decide +kernel
  have hnames : ∀ name, Defines first name → ¬ Defines second name := by
    have hdefines := @defines_iff first ["A"] (by decide +kernel)
    have hdefines' := @defines_iff second ["B"] (by decide +kernel)
    intro name hname hname'
    obtain rfl := List.mem_singleton.mp ((hdefines name).mp hname)
    exact absurd ((hdefines' _).mp hname') (by decide)
  have hclosed : ∀ diagnostic ∈ assembly.raised .empty, diagnostic.severity = .warning →
      diagnostic.message ≠ AssemblyError.unclosedOrigin.message := by
    rw [hraised]
    exact List.forall_mem_nil _
  have hwarning : ∃ diagnostic ∈ assembly'.raised .empty, diagnostic.severity = .warning :=
    List.mem_map.mp (hraised' ▸ List.mem_singleton_self _)
  obtain ⟨joined, tree, root, symbols, tree', root', symbols', tree'', root'', union, hjoined,
    houtcome, hstages, hstages', hstages'', hunion, hiff⟩ :=
    blocks_compose h himage h' himage' hclosed hnul hnames .empty
  exact ⟨hnul, hnames, joined, tree, root, symbols, tree', root', symbols', tree'', root'', union,
    hjoined, houtcome, hstages, hstages', hstages'', hunion, hiff.mpr hwarning⟩

end Assembly

end LC3
