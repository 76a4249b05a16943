import LC3.Proofs.WordOperands

namespace LC3

/-!
# Labels that are used

In a tree that comes from a source, labels are defined among the statements and used in operands,
which have nothing below them. So a label that is used is one that the walk over the statements has
given an address.

* `Grammar.Line.isOperand` — operands have nothing below them.
* `Node.IsProgram` — the shape of a tree that comes from a source.
* `Node.IsProgram.exists_lookup` — labels that are used are in the symbol table.
* `Assembly.stagesOf?_eq_some_iff` — the stages of a source in front of encoding.
-/

/-- Whether a node can stand below a statement: it has nothing below it and defines no label. -/
structure Node.IsOperand (node : Node) : Prop where
  children : node.children = []
  kind : node.kind ≠ .labelDefinition

namespace Grammar

variable {tokens : List Token} {nodes : List Node}

/-- The nodes of a number are operands. -/
theorem Number.isOperand (h : Number tokens nodes) : ∀ node ∈ nodes, node.IsOperand := by
  cases h with
  | hex => exact List.forall_mem_singleton.mpr ⟨rfl, by simp [Node.leaf]⟩
  | decimal _ hdecimal =>
    cases hdecimal <;> exact List.forall_mem_singleton.mpr ⟨rfl, by simp [Node.leaf]⟩

/-- What holds of everything that the grammar calls an operand, and of the flags of branches, holds
    of what stands below the nodes of a line. -/
theorem Line.forall_operands {property : Node → Prop} (h : Line tokens nodes)
    (hdirective : ∀ tokens nodes, DirectiveOperand tokens nodes → ∀ node ∈ nodes, property node)
    (hinstruction : ∀ tokens nodes, InstructionOperand tokens nodes →
      ∀ node ∈ nodes, property node)
    (hflags : ∀ flags word, property (LC3.Line.flagsNode flags word)) :
    ∀ node ∈ nodes, ∀ operand ∈ node.children, property operand := by
  have hstatement : ∀ {tokens nodes}, Statement tokens nodes →
      ∀ node ∈ nodes, ∀ operand ∈ node.children, property operand := by
    intro tokens nodes h
    cases h with
    | empty => exact List.forall_mem_nil _
    | directive _ _ _ hoperands =>
      exact List.forall_mem_singleton.mpr (hoperands.forall_nodes hdirective)
    | @instruction word _ flags? _ operands _ _ hoperands =>
      refine List.forall_mem_singleton.mpr fun operand hoperand => ?_
      rcases List.mem_append.mp hoperand with hmem | hmem
      · obtain ⟨flags, -, rfl⟩ := Option.map_eq_some_iff.mp (Option.mem_toList.mp hmem)
        exact hflags flags word
      · exact hoperands.forall_nodes hinstruction operand hmem
  cases h with
  | unlabelled _ h => exact hstatement h
  | labelled _ _ h => exact List.forall_mem_cons.mpr ⟨List.forall_mem_nil _, hstatement h⟩
  | labelledColon _ _ h => exact List.forall_mem_cons.mpr ⟨List.forall_mem_nil _, hstatement h⟩

/-- Operands of the grammar are leaves. -/
theorem Line.isOperand (h : Line tokens nodes) :
    ∀ node ∈ nodes, ∀ operand ∈ node.children, operand.IsOperand := by
  refine h.forall_operands ?_ ?_ fun _ _ => ⟨rfl, by simp [LC3.Line.flagsNode, Node.leaf]⟩
  · intro _ _ hoperand
    cases hoperand with
    | number h => exact h.isOperand
    | label | string => exact List.forall_mem_singleton.mpr ⟨rfl, by simp [Node.leaf]⟩
  · intro _ _ hoperand
    cases hoperand with
    | number h => exact h.isOperand
    | register | label => exact List.forall_mem_singleton.mpr ⟨rfl, by simp [Node.leaf]⟩

end Grammar

namespace Node

variable {root node operand : Node} {symbols : SymbolTable}

/-- The shape of a tree that comes from a source: a root, the statements and labels of the program,
    and their operands. -/
structure IsProgram (root : Node) : Prop where
  isRoot : root.kind = .root
  operands : ∀ node ∈ root.children, ∀ operand ∈ node.children, operand.IsOperand

/-- The tree of a source is a program. -/
theorem isProgram_of_parse {source : String} {result : StageResult Node} {tree : Node}
    (hparse : parse source = .ok result) (hout : result.outcome = .ok tree) : tree.IsProgram := by
  obtain ⟨-, rfl⟩ := StageResult.outcome_eq_ok_iff.mp hout
  refine ⟨(comesFrom_of_parse hparse hout).isRoot, ?_⟩
  exact forall_children_of_parse (fun _ _ h => Grammar.Line.isOperand h) hparse

/-- The analysis leaves the shape of a tree alone. -/
theorem IsProgram.analyze {tree : Node} (h : tree.IsProgram)
    (hout : tree.analyze.outcome = .ok root) : root.IsProgram := by
  constructor
  · obtain ⟨-, rfl⟩ := StageResult.outcome_eq_ok_iff.mp hout
    exact h.isRoot
  · rw [children_of_analyze hout]
    intro node hnode
    obtain ⟨before, hbefore, rfl⟩ := List.mem_map.mp hnode
    rw [children_recordFormat]
    exact h.operands before hbefore

/-- A node of some trees is at the top of one of them or below it. -/
theorem mem_walkAll_iff {nodes : List Node} :
    node ∈ walkAll nodes ↔ ∃ top ∈ nodes, node = top ∨ node ∈ walkAll top.children := by
  induction nodes with
  | nil => simp [walkAll]
  | cons first nodes ih =>
    rw [← List.singleton_append, walkAll_append, walkAll_singleton, List.mem_append, ih]
    simp [or_assoc]

/-- A node of a program is its root, a statement or label, or an operand. -/
theorem IsProgram.mem_walk_iff (h : root.IsProgram) : node ∈ root.walk ↔
    node = root ∨ ∃ statement ∈ root.children, node = statement ∨ node ∈ statement.children := by
  rw [walk_eq, List.mem_cons, mem_walkAll_iff]
  refine or_congr_right (exists_congr fun statement => and_congr_right fun hstatement =>
    or_congr_right ?_)
  -- nothing is below an operand
  have hleaves : ∀ operand ∈ statement.children, walkAll operand.children = [] := by
    intro operand hoperand
    rw [(h.operands statement hstatement operand hoperand).children]
    rfl
  rw [mem_walkAll_iff]
  constructor
  · rintro ⟨operand, hoperand, rfl | hbelow⟩
    · exact hoperand
    · rw [hleaves operand hoperand] at hbelow
      cases hbelow
  · exact fun hoperand => ⟨node, hoperand, .inl rfl⟩

/-- Labels are defined among the statements only. -/
theorem IsProgram.mem_children_of_mem_definitions (h : root.IsProgram)
    (hnode : node ∈ root.definitions) : node ∈ root.children := by
  obtain ⟨hwalk, hkind⟩ := List.mem_filter.mp hnode
  have hlabel : node.kind = .labelDefinition := by simpa using hkind
  rcases h.mem_walk_iff.mp hwalk with rfl | ⟨statement, hstatement, rfl | hoperand⟩
  · -- the root is no label
    rw [h.isRoot] at hlabel
    cases hlabel
  · exact hstatement
  · exact absurd hlabel (h.operands statement hstatement node hoperand).kind

/-- **Labels that are used have an address.** When a symbol table is built for a program, it has
    every label among the operands of the program. -/
theorem IsProgram.exists_lookup (h : root.IsProgram)
    (hbuild : (SymbolTable.build root).outcome = .ok symbols) (hnode : node ∈ root.children)
    (hoperand : operand ∈ node.children) (hkind : operand.kind = .labelReference) :
    ∃ target, symbols.lookup operand.text = some target := by
  obtain ⟨hnames, -, -⟩ := SymbolTable.outcome_build_eq_ok hbuild
  have hreference : operand ∈ root.references := by
    have hwalk : operand ∈ root.walk := h.mem_walk_iff.mpr (.inr ⟨node, hnode, .inr hoperand⟩)
    exact List.mem_filter.mpr ⟨hwalk, by simp [hkind]⟩
  obtain ⟨label, hlabel, htext⟩ :=
    List.mem_map.mp ((nameNotices_eq_nil_iff.mp hnames).2 operand hreference)
  have hdefinition : label.kind = .labelDefinition := by
    simpa using (List.mem_filter.mp hlabel).2
  obtain ⟨before, after, hchildren⟩ :=
    List.append_of_mem (h.mem_children_of_mem_definitions hlabel)
  obtain ⟨_, _, _, _, _, _, hlookup⟩ := SymbolTable.lookup_definition hbuild hchildren hdefinition
  rw [htext] at hlookup
  exact ⟨_, hlookup⟩

end Node

/-- What the stages in front of encoding make of a source. -/
theorem Assembly.stagesOf?_eq_some_iff {source : String} {symbols : SymbolTable} {root : Node} :
    stagesOf? source = some (symbols, root) ↔
      ∃ result tree, parse source = .ok result ∧ result.outcome = .ok tree ∧
        tree.analyze.outcome = .ok root ∧ (SymbolTable.build root).outcome = .ok symbols := by
  have hoption : ∀ {ε α : Type} {x : Except ε α} {a : α}, x.toOption = some a ↔ x = .ok a := by
    intro ε α x a
    cases x <;> simp [Except.toOption]
  simp only [stagesOf?, Option.bind_eq_bind, Option.bind_eq_some_iff, hoption, Option.pure_def,
    Option.some.injEq, Prod.mk.injEq]
  constructor
  · rintro ⟨result, hparse, tree, htree, _, hroot, _, hsymbols, rfl, rfl⟩
    exact ⟨result, tree, hparse, htree, hroot, hsymbols⟩
  · rintro ⟨result, tree, hparse, htree, hroot, hsymbols⟩
    exact ⟨result, hparse, tree, htree, root, hroot, symbols, hsymbols, rfl, rfl⟩

end LC3
