import LC3.Proofs.BranchWords
import LC3.Proofs.Faults
import LC3.Proofs.TreeTokens

namespace LC3

/-!
# The shape of trees

Whatever a source is, what is read of it are labels, directives and instructions, with operands of
a few kinds and nothing below these. Only branches have flags, and their first operand is a node
with the same flags, which stands for them when they are encoded.

* `Node.DirectiveArgument`, `Node.InstructionArgument` — operands of statements.
* `Node.Shaped` — labels and statements as they are read.
* `Context.nodes_shaped` — every source is read as such nodes.
* `Node.Shaped.flags_of_read?` — a branch is encoded with its own flags.
-/

namespace Node

/-- An operand of a directive: a number, a label or a string, with nothing below it. -/
inductive DirectiveArgument : Node → Prop where
  | number (value : Word) (token : Token) : DirectiveArgument (.leaf (.number value) token)
  | label (token : Token) : DirectiveArgument (.leaf .labelReference token)
  | string (value : String) (token : Token) : DirectiveArgument (.leaf (.string value) token)

/-- An operand of an instruction: a register, a number or a label, with nothing below it. -/
inductive InstructionArgument : Node → Prop where
  | register (register : Register) (token : Token) :
    InstructionArgument (.leaf (.register register) token)
  | number (value : Word) (token : Token) : InstructionArgument (.leaf (.number value) token)
  | label (token : Token) : InstructionArgument (.leaf .labelReference token)

/-- A label or a statement as it is read. No format has been recorded, and the first operand of a
    branch, and of no other instruction, are its flags. -/
inductive Shaped : Node → Prop where
  | label (token : Token) : Shaped (.leaf .labelDefinition token)
  | directive (directive : Directive) (token : Token) {arguments : List Node}
    (harguments : ∀ argument ∈ arguments, argument.DirectiveArgument) :
    Shaped ⟨.directive directive, some token, arguments⟩
  | plain {mnemonic : Mnemonic} (hmnemonic : mnemonic ≠ .br) (token : Token) {arguments : List Node}
    (harguments : ∀ argument ∈ arguments, argument.InstructionArgument) :
    Shaped ⟨.instruction mnemonic none none, some token, arguments⟩
  | branch (flags : Flags) (token suffix : Token) {arguments : List Node}
    (harguments : ∀ argument ∈ arguments, argument.InstructionArgument) :
    Shaped ⟨.instruction .br none (some flags), some token,
      .leaf (.flags flags) suffix :: arguments⟩

end Node

/-- A word without flags names no branch: the bare name of a branch has all flags. -/
theorem Keyword.ne_br_of_lookup {word : String} {mnemonic : Mnemonic}
    (h : lookup word = .instruction mnemonic none) : mnemonic ≠ .br := by
  rintro rfl
  have hnone : ∀ suffix, ¬ BranchWord word suffix := fun suffix hbranch =>
    hbranch.lookup_iff.2.2.2.1 .br h
  rw [lookup_eq_lookupPlain hnone, lookupPlain_eq_instruction_iff] at h
  exact hnone [] (branchWord_nil_iff.mpr h.2)

namespace Grammar

variable {tokens : List Token} {nodes : List Node}

/-! ### Nodes of a line -/

/-- Every number of the grammar is a node of a number. -/
theorem Number.exists_leaf (h : Number tokens nodes) :
    ∃ value token, nodes = [.leaf (.number value) token] := by
  cases h with
  | hex => exact ⟨_, _, rfl⟩
  | decimal _ hdecimal => cases hdecimal <;> exact ⟨_, _, rfl⟩

theorem DirectiveOperand.directiveArgument (h : DirectiveOperand tokens nodes) :
    ∀ node ∈ nodes, node.DirectiveArgument := by
  cases h with
  | number h =>
    obtain ⟨value, token, rfl⟩ := h.exists_leaf
    exact List.forall_mem_singleton.mpr (.number value token)
  | label => exact List.forall_mem_singleton.mpr (.label _)
  | string => exact List.forall_mem_singleton.mpr (.string _ _)

theorem InstructionOperand.instructionArgument (h : InstructionOperand tokens nodes) :
    ∀ node ∈ nodes, node.InstructionArgument := by
  cases h with
  | register => exact List.forall_mem_singleton.mpr (.register _ _)
  | number h =>
    obtain ⟨value, token, rfl⟩ := h.exists_leaf
    exact List.forall_mem_singleton.mpr (.number value token)
  | label => exact List.forall_mem_singleton.mpr (.label _)

/-- Statements have the shape of directives, of branches with flags, or of other instructions. -/
theorem Statement.shaped (h : Statement tokens nodes) : ∀ node ∈ nodes, node.Shaped := by
  cases h with
  | empty => exact List.forall_mem_nil _
  | directive _ _ _ hoperands =>
    have harguments := hoperands.forall_nodes fun _ _ h => h.directiveArgument
    exact List.forall_mem_singleton.mpr (.directive _ _ harguments)
  | @instruction word mnemonic flags? _ operands _ hinstruction hoperands =>
    have harguments := hoperands.forall_nodes fun _ _ h => h.instructionArgument
    refine List.forall_mem_singleton.mpr ?_
    cases flags? with
    | none => exact .plain (Keyword.ne_br_of_lookup hinstruction) word harguments
    | some flags =>
      obtain ⟨rfl, -⟩ := Keyword.branch_of_lookup hinstruction
      exact .branch flags word _ harguments

/-- A label is in front of a statement, or nothing is. -/
theorem Line.shaped (h : Line tokens nodes) : ∀ node ∈ nodes, node.Shaped := by
  cases h with
  | unlabelled _ hstatement => exact hstatement.shaped
  | labelled _ _ hstatement | labelledColon _ _ hstatement =>
    exact List.forall_mem_cons.mpr ⟨.label _, hstatement.shaped⟩

end Grammar

/-- **The shape of trees.** Reading a source always comes to an end, and what is left of it then are
    labels and statements of this shape, also when there are lines that cannot be read. -/
theorem Context.nodes_shaped (source : String) :
    ∃ context, (Context.ofSource source).apply Line.document = .ok (.matched, context) ∧
      ∀ node ∈ context.nodes, node.Shaped := by
  obtain ⟨context, happly, hreads, -⟩ := Context.exists_apply_document source
  refine ⟨context, happly, ?_⟩
  rw [hreads.nodes]
  intro node hnode
  -- a line that cannot be read leaves no nodes
  obtain ⟨line, -, hmem⟩ := List.mem_flatMap.mp hnode
  exact line.forall_nodes (fun _ _ h => h.shaped) node hmem

namespace Node

variable {node : Node}

theorem InstructionArgument.flags?_eq_none (h : node.InstructionArgument) :
    node.flags? = none := by
  cases h <;> rfl

/-- Operands that are read as those of a branch start with its flags. -/
theorem exists_of_read?_branch {nodes : List Node} {flags : Flags} {target : Address}
    (h : Format.branch.read? nodes = some (.branch flags target)) :
    ∃ first second, nodes = [first, second] ∧ first.flags? = some flags := by
  rcases nodes with _ | ⟨first, _ | ⟨second, _ | ⟨third, nodes⟩⟩⟩ <;>
    simp only [Format.read?, Option.bind_eq_bind, Option.bind_eq_some_iff, Option.pure_def,
      Option.some.injEq, reduceCtorEq, Arguments.branch.injEq] at h
  obtain ⟨flags, hflags, target, -, rfl, rfl⟩ := h
  exact ⟨first, second, rfl, hflags⟩

/-- **Branches are encoded with their flags.** Where the operands of an instruction are read as those
    of a branch, with flags that are taken from the first of them, it is a branch with these
    flags. -/
theorem Shaped.flags_of_read? {mnemonic : Mnemonic} {format? : Option Format}
    {flags? : Option Flags} {format : Format} {flags : Flags} {target : Address}
    (h : node.Shaped) (hkind : node.kind = .instruction mnemonic format? flags?)
    (hread : format.read? node.children = some (.branch flags target)) :
    mnemonic = .br ∧ flags? = some flags := by
  obtain rfl : Format.branch = format := (Format.read?_spec hread).1
  obtain ⟨first, second, hchildren, hflags⟩ := exists_of_read?_branch hread
  cases h with
  | label | directive => cases hkind
  | plain _ _ harguments =>
    obtain rfl : _ = [first, second] := hchildren
    rw [(harguments first List.mem_cons_self).flags?_eq_none] at hflags
    cases hflags
  | branch =>
    -- only a branch has flags in front, which are its own
    obtain ⟨rfl, -, rfl⟩ := Kind.instruction.inj hkind
    obtain ⟨rfl, -⟩ := List.cons.inj hchildren
    exact ⟨rfl, hflags⟩

end Node

end LC3
