import LC3.Proofs.Formats
import LC3.Proofs.Places

namespace LC3

/-!
# What encoding can find

A statement whose operands are read in a format of its own is either encoded, or it has a fault at
one of these operands. Nothing else can happen to a tree that comes from a source.

* `Arguments.locations` — the places of operands.
* `EncodingError.IsFaultAt` — whether an error is a fault at one of some places.
* `Mnemonic.isFaultAt_of_encode`, `Directive.isFaultAt_of_encode` — the faults of operands.
* `Node.ComesFrom.exists_encode` — encoding a tree comes to an end, and its faults lie in the source.
-/

/-- The places of operands that can have a fault. -/
def Arguments.locations : Arguments → List (Option Location)
  | .number literal | .vector literal | .registersNumber _ _ literal => [literal.location?]
  | .address target | .branch _ target | .registerAddress _ target => [target.location?]
  | .numberAddress literal target => [literal.location?, target.location?]
  | .empty | .register _ | .string _ | .registers _ _ | .threeRegisters _ _ _ => []

/-! ### Operands -/

/-- Whether a place is that of one of some nodes that are no flags. -/
def Node.StandsAt (nodes : List Node) (location? : Option Location) : Prop :=
  ∃ node ∈ nodes, node.isFlags = false ∧ node.location? = location?

/-- A number operand is read where it stands. -/
theorem Node.standsAt_of_literal? {nodes : List Node} {node : Node} {literal : Literal}
    (hnode : node ∈ nodes) (h : node.literal? = some literal) :
    StandsAt nodes literal.location? := by
  unfold literal? at h
  split at h
  case h_1 hkind =>
    obtain rfl := Option.some.inj h
    exact ⟨node, hnode, by rw [isFlags, hkind], rfl⟩
  case h_2 => cases h

/-- An address operand is read where it stands. -/
theorem Node.standsAt_of_address? {nodes : List Node} {node : Node} {address : Address}
    (hnode : node ∈ nodes) (h : node.address? = some address) :
    StandsAt nodes address.location? := by
  unfold address? at h
  cases hkind : node.kind with
  | number value =>
    rw [hkind] at h
    obtain rfl := Option.some.inj h
    exact ⟨node, hnode, by rw [isFlags, hkind], rfl⟩
  | labelReference =>
    rw [hkind] at h
    obtain rfl := Option.some.inj h
    exact ⟨node, hnode, by rw [isFlags, hkind], rfl⟩
  | _ =>
    rw [hkind] at h
    cases h

/-- Operands that are read in a format have it, and stand where the nodes do that they are read
    from. -/
theorem Format.read?_spec {format : Format} {nodes : List Node} {operands : Arguments}
    (h : format.read? nodes = some operands) :
    operands.format = format ∧
      ∀ location? ∈ operands.locations, Node.StandsAt nodes location? := by
  -- the places of operands are those of numbers and addresses; registers, texts and flags have none
  have hnumber : ∀ {node literal}, node ∈ nodes → Node.literal? node = some literal →
      Node.StandsAt nodes literal.location? := Node.standsAt_of_literal?
  have haddress : ∀ {node address}, node ∈ nodes → Node.address? node = some address →
      Node.StandsAt nodes address.location? := Node.standsAt_of_address?
  unfold read? at h
  split at h <;>
    simp only [Option.bind_eq_bind, Option.bind_eq_some_iff, Option.pure_def, Option.some.injEq,
      reduceCtorEq] at h
  case h_1 =>
    subst h
    exact ⟨rfl, List.forall_mem_nil _⟩
  case h_2 | h_4 =>
    obtain ⟨_, _, rfl⟩ := h
    exact ⟨rfl, List.forall_mem_nil _⟩
  case h_3 | h_7 =>
    obtain ⟨literal, hliteral, rfl⟩ := h
    exact ⟨rfl, List.forall_mem_singleton.mpr (hnumber (by simp) hliteral)⟩
  case h_5 =>
    obtain ⟨target, htarget, rfl⟩ := h
    exact ⟨rfl, List.forall_mem_singleton.mpr (haddress (by simp) htarget)⟩
  case h_6 | h_10 =>
    obtain ⟨_, _, target, htarget, rfl⟩ := h
    exact ⟨rfl, List.forall_mem_singleton.mpr (haddress (by simp) htarget)⟩
  case h_8 =>
    obtain ⟨literal, hliteral, target, htarget, rfl⟩ := h
    exact ⟨rfl, List.forall_mem_cons.mpr ⟨hnumber (by simp) hliteral,
      List.forall_mem_singleton.mpr (haddress (by simp) htarget)⟩⟩
  case h_9 =>
    obtain ⟨_, _, _, _, rfl⟩ := h
    exact ⟨rfl, List.forall_mem_nil _⟩
  case h_11 =>
    obtain ⟨_, _, _, _, _, _, rfl⟩ := h
    exact ⟨rfl, List.forall_mem_nil _⟩
  case h_12 =>
    obtain ⟨_, _, _, _, literal, hliteral, rfl⟩ := h
    exact ⟨rfl, List.forall_mem_singleton.mpr (hnumber (by simp) hliteral)⟩

/-! ### Faults -/

/-- Whether an error is a fault of a statement, at one of some places. -/
def EncodingError.IsFaultAt (error : EncodingError) (places : List (Option Location)) : Prop :=
  ∃ fault, error = .fault fault ∧ fault.location? ∈ places

/-- A fault at one of some places is a fault at one of more. -/
theorem EncodingError.IsFaultAt.weaken {error : EncodingError} {place : Option Location}
    {places : List (Option Location)} (h : error.IsFaultAt [place]) (hplace : place ∈ places) :
    error.IsFaultAt places := by
  obtain ⟨fault, hfault, hmem⟩ := h
  exact ⟨fault, hfault, List.mem_singleton.mp hmem ▸ hplace⟩

variable {symbols : SymbolTable} {error : EncodingError}

/-- An address that cannot be resolved is a fault where it stands. -/
theorem Address.isFaultAt_of_resolve {address : Address}
    (h : address.resolve symbols = .error error) : error.IsFaultAt [address.location?] := by
  unfold resolve at h
  split at h
  case h_1 => cases h
  case h_2 =>
    split at h
    case h_1 => cases h
    case h_2 =>
      cases h
      exact ⟨_, rfl, List.mem_singleton_self _⟩

/-- A distance that cannot be packed is a fault at its address. -/
theorem Address.isFaultAt_of_distance {address : Address} {width : Width} {next : Word}
    (h : address.distance width next symbols = .error error) :
    error.IsFaultAt [address.location?] := by
  rcases bind_eq_error_iff.mp h with h | ⟨target, -, h⟩
  · exact isFaultAt_of_resolve h
  · split at h
    case h_1 => cases h
    case h_2 =>
      cases h
      exact ⟨_, rfl, List.mem_singleton_self _⟩

/-- A number that cannot be packed is a fault where it stands. -/
theorem Literal.isFaultAt_of_pack {literal : Literal} {signedness : Signedness} {width : Width}
    (h : literal.pack signedness width = .error error) :
    error.IsFaultAt [literal.location?] := by
  unfold pack at h
  split at h
  case h_1 => cases h
  case h_2 =>
    cases h
    exact ⟨_, rfl, List.mem_singleton_self _⟩

namespace Mnemonic

variable {mnemonic : Mnemonic} {next : Word}

/-- Formats of directives are not those of instructions. -/
theorem format_notMem (mnemonic : Mnemonic) :
    .number ∉ mnemonic.formats ∧ .string ∉ mnemonic.formats ∧
      .numberAddress ∉ mnemonic.formats := by
  cases mnemonic <;> decide

/-- A number behind registers that cannot be packed is one too. -/
theorem isFaultAt_of_packNumber {literal : Literal}
    (h : mnemonic.packNumber literal = .error error) : error.IsFaultAt [literal.location?] := by
  unfold packNumber at h
  split at h
  case h_1 | h_2 =>
    rcases bind_eq_error_iff.mp h with h | ⟨_, -, h⟩
    · exact Literal.isFaultAt_of_pack h
    · cases h
  case h_3 => exact Literal.isFaultAt_of_pack h

/-- **Instructions have only faults.** What can be wrong with operands that an instruction accepts
    is a fault at one of them. -/
theorem isFaultAt_of_encode {operands : Arguments} (hformat : operands.format ∈ mnemonic.formats)
    (h : mnemonic.encode next symbols operands = .error error) :
    error.IsFaultAt operands.locations := by
  obtain ⟨hnumber, hstring, hnumberAddress⟩ := mnemonic.format_notMem
  rcases bind_eq_error_iff.mp h with h | ⟨_, -, h⟩
  -- behind the operands nothing can go wrong
  case inr => cases h
  cases operands with
  | empty | register | registers | threeRegisters => cases h
  -- formats of directives are none of an instruction
  | number => exact absurd hformat hnumber
  | string => exact absurd hformat hstring
  | numberAddress => exact absurd hformat hnumberAddress
  | address target => exact Address.isFaultAt_of_distance h
  | vector literal => exact Literal.isFaultAt_of_pack h
  | branch _ target | registerAddress _ target =>
    rcases bind_eq_error_iff.mp h with h | ⟨_, -, h⟩
    · exact Address.isFaultAt_of_distance h
    · cases h
  | registersNumber _ _ literal =>
    rcases bind_eq_error_iff.mp h with h | ⟨_, -, h⟩
    · exact isFaultAt_of_packNumber h
    · cases h

end Mnemonic

/-- **Directives have only faults**, too. -/
theorem Directive.isFaultAt_of_encode {directive : Directive} {operands : Arguments}
    (hformat : operands.format ∈ directive.formats)
    (h : directive.encode symbols operands = .error error) :
    error.IsFaultAt operands.locations := by
  cases directive <;> cases operands <;>
    simp only [formats, Arguments.format, List.mem_cons, List.not_mem_nil, or_false, reduceCtorEq]
      at hformat
  -- what is left are operands in the formats of the directive
  case orig.number | blkw.number | stringz.string | endRegion.empty => cases h
  case fill.address target =>
    rcases bind_eq_error_iff.mp h with h | ⟨_, -, h⟩
    · exact Address.isFaultAt_of_resolve h
    · cases h
  case blkw.numberAddress literal target =>
    rcases bind_eq_error_iff.mp h with h | ⟨_, -, h⟩
    · exact (Address.isFaultAt_of_resolve h).weaken (List.mem_cons_of_mem _ List.mem_cons_self)
    · cases h

/-! ### Statements -/

namespace Node

variable {source : String} {node : Node} {counter : Counter}

/-- The operands of an instruction are read in a format of it. -/
theorem exists_read?_of_instructionArguments? {mnemonic : Mnemonic} {format? : Option Format}
    {operands : Arguments} (hown : ∀ format, format? = some format → format ∈ mnemonic.formats)
    (h : node.instructionArguments? mnemonic format? = some operands) :
    ∃ format ∈ mnemonic.formats, format.read? node.children = some operands := by
  unfold instructionArguments? at h
  split at h
  case h_1 hread =>
    obtain rfl := Option.some.inj h
    obtain ⟨format, hformat, hread⟩ := Option.bind_eq_some_iff.mp hread
    exact ⟨format, hown format hformat, hread⟩
  case h_2 => exact exists_read?_of_readFirst? h

/-- What is left open when a statement cannot be encoded: it has a fault, at itself or at one of its
    operands. -/
theorem isFaultAt_of_emit (hown : node.RecordsOwnFormat)
    (h : node.emit counter symbols = .error error) :
    ∃ fault, error = .fault fault ∧
      (fault.location? = node.location? ∨ StandsAt node.children fault.location?) := by
  -- a fault at an operand that has been read is one at the node that it is read from
  have hoperand : ∀ {format : Format} {operands : Arguments},
      format.read? node.children = some operands → error.IsFaultAt operands.locations →
        ∃ fault, error = .fault fault ∧
          (fault.location? = node.location? ∨ StandsAt node.children fault.location?) := by
    rintro format operands hread ⟨fault, hfault, hmem⟩
    exact ⟨fault, hfault, .inr ((Format.read?_spec hread).2 _ hmem)⟩
  unfold emit at h
  split at h
  case h_1 mnemonic format? flags? hkind =>
    split at h
    case h_1 operands harguments =>
      have hrecorded : ∀ format, format? = some format → format ∈ mnemonic.formats := by
        intro format hformat
        exact hown mnemonic format flags? (by rw [hkind, hformat])
      obtain ⟨format, hformat, hread⟩ :=
        exists_read?_of_instructionArguments? hrecorded harguments
      rcases bind_eq_error_iff.mp h with h | ⟨_, -, h⟩
      · rw [← (Format.read?_spec hread).1] at hformat
        exact hoperand hread (Mnemonic.isFaultAt_of_encode hformat h)
      · cases h
    case h_2 =>
      cases h
      exact ⟨_, rfl, .inl rfl⟩
  case h_2 directive hkind =>
    unfold emitDirective at h
    split at h
    case h_1 operands harguments =>
      obtain ⟨format, hformat, hread⟩ := exists_read?_of_readFirst? harguments
      rw [← (Format.read?_spec hread).1] at hformat
      exact hoperand hread (Directive.isFaultAt_of_encode hformat h)
    case h_2 =>
      cases h
      exact ⟨_, rfl, .inl rfl⟩
  case h_3 => cases h

/-- Statements are all encoded or have a fault, and these faults lie in the source if the statements
    and their operands do. -/
theorem exists_emitAll {nodes : List Node} (hown : ∀ node ∈ nodes, node.RecordsOwnFormat)
    (hnodes : ∀ node ∈ nodes, node.LiesIn source)
    (hoperands : ∀ node ∈ nodes, ∀ operand ∈ node.children, operand.isFlags = false →
      operand.LiesIn source) :
    ∃ result, emitAll symbols counter nodes = .ok result ∧
      ∀ notice ∈ result.notices, notice.LiesIn source := by
  induction nodes generalizing counter with
  | nil => exact ⟨_, rfl, List.forall_mem_nil _⟩
  | cons node nodes ih =>
    obtain ⟨hown, hown'⟩ := List.forall_mem_cons.mp hown
    obtain ⟨hnode, hnodes⟩ := List.forall_mem_cons.mp hnodes
    obtain ⟨hoperand, hoperands⟩ := List.forall_mem_cons.mp hoperands
    obtain ⟨rest, hrest, hnotices⟩ := ih hown' hnodes hoperands
    rw [emitAll, hrest]
    cases hemit : node.emit (counter.step node) symbols with
    | ok words => exact ⟨_, rfl, hnotices⟩
    | error error =>
      obtain ⟨fault, rfl, hplace⟩ := isFaultAt_of_emit hown hemit
      have hfault : fault.notice.LiesIn source := by
        -- the fault is at the statement or at one of its operands, both of which lie in the source
        rcases hplace with hsame | ⟨operand, hmem, hflags, hsame⟩
        · intro location hlocation
          exact hnode location (hsame ▸ hlocation)
        · intro location hlocation
          exact hoperand operand hmem hflags location (hsame ▸ hlocation)
      exact ⟨_, rfl, List.forall_mem_cons.mpr ⟨hfault, hnotices⟩⟩

/-- Operands are below their statements. -/
theorem mem_walkAll_of_mem_children {nodes : List Node} {node child : Node} (hnode : node ∈ nodes)
    (hchild : child ∈ node.children) : child ∈ walkAll nodes := by
  obtain ⟨before, after, rfl⟩ := List.append_of_mem hnode
  rw [← List.singleton_append, walkAll_append, walkAll_append, walkAll_singleton]
  have hbelow : child ∈ walkAll node.children := (sublist_walkAll node.children).subset hchild
  exact List.mem_append_right _ (List.mem_append_left _ (List.mem_cons_of_mem _ hbelow))

/-- **Encoding comes to an end.** What it finds in a tree that comes from a source are faults that
    lie in the source. -/
theorem ComesFrom.exists_encode {root : Node} (h : root.ComesFrom source) (symbols : SymbolTable) :
    ∃ result, root.encode symbols = .ok result ∧
      ∀ notice ∈ result.notices, notice.LiesIn source := by
  obtain ⟨result, hresult, hnotices⟩ := exists_emitAll h.recordsOwnFormat (fun _ => h.liesIn_child)
    fun node hnode operand hoperand => h.liesIn operand (mem_walkAll_of_mem_children hnode hoperand)
  exact ⟨_, bind_eq_ok_iff.mpr ⟨result, hresult, rfl⟩, hnotices⟩

end Node

end LC3
