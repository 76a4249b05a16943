import LC3.Proofs.Places

namespace LC3

/-!
# What nodes are read from

Each node of a tree is read from a token of the source, which tells what the node is: the name of an
instruction or a directive, a label, a register, a string or a number. The flags of a branch are
left aside, since they are read from a part of a word.

* `Token.NamesInstruction`, `Token.NamesDirective`, `Token.NamesLabel`, `Token.SpellsHex` — what a
  word can be read as.
* `Node.Kind.IsReadFrom` — whether a token tells what a node is.
* `Node.IsRead`, `Grammar.builds_isRead` — the nodes of a line come from tokens that do.
* `Node.isRead_of_parse` — so do those of a source.
-/

/-! ### Tokens -/

namespace Token

/-- Whether a token is the name of an instruction, with flags if it is a branch. -/
def NamesInstruction (token : Token) (mnemonic : Mnemonic) (flags? : Option Flags) : Prop :=
  token.kind = .word ∧ Keyword.lookup token.text = .instruction mnemonic flags?

/-- Whether a token is the name of a directive. -/
def NamesDirective (token : Token) (directive : Directive) : Prop :=
  token.kind = .word ∧ Directive.ofName? token.text = some directive

/-- Whether a token is the name of a label where it is used. -/
def NamesLabel (token : Token) : Prop :=
  token.kind = .word ∧ ¬ Grammar.IsHexForm token.text

/-- Whether a token is a hexadecimal number that fits a word. -/
def SpellsHex (token : Token) (word : Word) : Prop :=
  token.kind = .word ∧
    ∃ value < Word.count, Line.HexNumber token.text value ∧ word = BitVec.ofNat 16 value

end Token

/-- Whether a token tells what a node is. Of digits it tells only that they are a number, since which
    one depends on what is in front of them. -/
def Node.Kind.IsReadFrom (kind : Node.Kind) (token : Token) : Prop :=
  match kind with
  | .instruction mnemonic _ flags? => token.NamesInstruction mnemonic flags?
  | .directive name => token.NamesDirective name
  | .labelDefinition => token.kind = .word
  | .labelReference => token.NamesLabel
  | .register name => token.kind = .word ∧ Register.ofName? token.text = some name
  | .number value => token.kind = .number ∨ token.SpellsHex value
  | .string value => token.kind = .string ∧
      value = String.ofList (Text.unescape token.text.toList)
  | _ => False

/-- Whether a node, unless it is flags, comes from a token that tells what it is. -/
def Node.IsRead (node : Node) : Prop :=
  node.isFlags = false → ∃ token, node.token? = some token ∧ node.kind.IsReadFrom token

/-! ### Lines -/

namespace Grammar

open Node

/-- The node of an operand is read from its token. -/
theorem Leaf.isReadFrom {token : Token} {kind : Kind} (h : Leaf token kind) :
    kind.IsReadFrom token := by
  cases h with
  | hex hkind hvalue hfits => exact .inr ⟨hkind, _, hfits, hvalue, rfl⟩
  | register hkind hname => exact ⟨hkind, hname⟩
  | reference hkind hform => exact ⟨hkind, hform⟩
  | string hkind => exact ⟨hkind, rfl⟩
  | definition hkind => exact hkind

/-- The node of a statement is read from the token that names it. -/
theorem Head.isReadFrom {token : Token} {kind : Kind} {flags? : Option Flags}
    (h : Head token kind flags?) : kind.IsReadFrom token := by
  cases h with
  | directive hname hdirective => exact ⟨hname, hdirective⟩
  | instruction hword hinstruction => exact ⟨hword, hinstruction⟩

/-- A node of its own comes from its token. -/
private theorem forall_isRead_leaf {token : Token} {kind : Kind} (h : kind.IsReadFrom token) :
    ∀ node ∈ walkAll [leaf kind token], node.IsRead :=
  List.forall_mem_singleton.mpr fun _ => ⟨token, rfl, h⟩

/-- **The nodes of a line come from tokens that tell what they are**, since those of every piece of
    it do. -/
theorem builds_isRead : Builds fun _ nodes => ∀ node ∈ walkAll nodes, node.IsRead where
  none := List.forall_mem_nil _
  append h h' := by
    rw [walkAll_append]
    exact List.forall_mem_append.mpr ⟨h, h'⟩
  punctuation _ := List.forall_mem_nil _
  decimal h := by
    cases h with
    | plain hkind | negative _ hkind => exact forall_isRead_leaf (.inl hkind)
  leaf h := forall_isRead_leaf h.isReadFrom
  statement {token kind flags? tokens operands} h hoperands := by
    -- the node for flags is told from the word of the branch, not read from it
    have hflags : ∀ node ∈ walkAll (flags?.map (LC3.Line.flagsNode · token)).toList,
        node.IsRead := by
      cases flags? with
      | none => exact List.forall_mem_nil _
      | some flags => exact List.forall_mem_singleton.mpr nofun
    rw [walkAll_singleton, walkAll_append]
    exact List.forall_mem_cons.mpr
      ⟨fun _ => ⟨token, rfl, h.isReadFrom⟩, List.forall_mem_append.mpr ⟨hflags, hoperands⟩⟩

end Grammar

/-! ### Trees -/

namespace Node

/-- **The nodes of the tree of a source come from tokens that tell what they are.** -/
theorem isRead_of_parse {source : String} {result : StageResult Node} {root : Node}
    (hparse : parse source = .ok result) (hout : result.outcome = .ok root) :
    ∀ node ∈ walkAll root.children, node.IsRead := by
  obtain ⟨nodes, rfl, hread⟩ := exists_built hparse hout Grammar.builds_isRead
  exact hread

end Node

end LC3
