import LC3.Proofs.Distance
import LC3.Proofs.Faults
import LC3.Proofs.Listing

namespace LC3

/-!
# What words are made of

An instruction measures the distance to an address, or it packs a number into its word, or there is
nothing in its word but what is fixed. Which of these depends on the classes of its operands. A
directive stores the address that an operand stands for, or words that are fixed.

* `Mnemonic.Packs` — which operand an instruction packs as a number, and in which field.
* `Mnemonic.measures_or_packs` — what an instruction does with operands of one of its formats.
* `Node.Fills`, `Node.fills_of_instruction` — what its word is made of.
* `Node.Stores`, `Node.stores_of_directive` — what the words of a directive are made of.
-/

/-! ### Instructions with a number operand -/

/-- The operands of an instruction that packs the number in one of them, with that operand and the
    field. -/
inductive Mnemonic.Packs : Mnemonic → List Node → Node → Signedness → Width → Prop where
  /-- `ADD R0, R1, #-1` -/
  | immediate {mnemonic : Mnemonic} {target source : Register} (first second operand : Node)
    (hmnemonic : mnemonic ∈ [add, and]) (hfirst : first.kind = .register target)
    (hsecond : second.kind = .register source) :
    Packs mnemonic [first, second, operand] operand .signed .immediate
  /-- `LDR R0, R1, #2` -/
  | offset {mnemonic : Mnemonic} {target base : Register} (first second operand : Node)
    (hmnemonic : mnemonic ∈ [ldr, str]) (hfirst : first.kind = .register target)
    (hsecond : second.kind = .register base) :
    Packs mnemonic [first, second, operand] operand .signed .baseOffset
  /-- `TRAP x25` -/
  | vector (operand : Node) : Packs .trap [operand] operand .unsigned .trapVector

namespace Node

variable {node operand : Node} {mnemonic : Mnemonic} {format? : Option Format}
  {flags? : Option Flags}

/-- An operand that is read as an address is of a kind that addresses have. -/
theorem accepts_of_address? {address : Address} (h : operand.address? = some address) :
    Operand.address.accepts operand.kind := by
  rw [← isSome_address?, h]
  rfl

/-- The operand that a distance is measured to is one of the operands. -/
theorem mem_of_measures {nodes : List Node} {width : Width}
    (h : mnemonic.Measures nodes operand width) : operand ∈ nodes := by
  cases h <;> simp

/-- The operand that is packed is one of the operands. -/
theorem mem_of_packs {nodes : List Node} {signedness : Signedness} {width : Width}
    (h : mnemonic.Packs nodes operand signedness width) : operand ∈ nodes := by
  cases h <;> simp

/-- The word of an instruction whose operands are packed from the field of a number. -/
private theorem exists_word {format : Format} {operands : Arguments} {literal : Literal}
    {signedness : Signedness} {width : Width} {change : Word → Word}
    (hkind : node.kind = .instruction mnemonic format? flags?) (hown : node.RecordsOwnFormat)
    (hformat : format ∈ mnemonic.formats) (hread : format.read? node.children = some operands)
    (hpack : ∀ next symbols, mnemonic.packOperands next symbols operands =
      (literal.pack signedness width).map change) :
    ∃ word : Word → Word, ∀ counter symbols, node.emit counter symbols =
      (literal.pack signedness width).map fun packed => [word packed] := by
  refine ⟨fun packed => mnemonic.word ||| change packed, fun counter symbols => ?_⟩
  rw [emit_eq_encode hkind hown hformat hread, encode_eq_map (hpack counter.next symbols)]

/-- Two registers and a number are read as they are written. -/
private theorem read?_registersNumber {first second : Node} {target source : Register}
    {literal : Literal} (hchildren : node.children = [first, second, operand])
    (hfirst : first.kind = .register target) (hsecond : second.kind = .register source)
    (hliteral : operand.literal? = some literal) :
    Format.registersNumber.read? node.children = some (.registersNumber target source literal) := by
  rw [hchildren, Format.read?, register?, register?, hfirst, hsecond, hliteral]
  rfl

/-- Two registers and a number are packed side by side. -/
private theorem packOperands_registersNumber {target source : Register} {literal : Literal}
    {width : Width} {change : Word → Word}
    (h : mnemonic.packNumber literal = (literal.pack .signed width).map change) (next : Word)
    (symbols : SymbolTable) :
    mnemonic.packOperands next symbols (.registersNumber target source literal) =
      (literal.pack .signed width).map fun packed =>
        target.packAt 9 ||| source.packAt 6 ||| change packed := by
  rw [Mnemonic.packOperands, h]
  cases literal.pack .signed width <;> rfl

/-- The word of an instruction with a number operand is made from the field of the number. -/
theorem exists_emit_eq_pack {signedness : Signedness} {width : Width} {literal : Literal}
    (hkind : node.kind = .instruction mnemonic format? flags?) (hown : node.RecordsOwnFormat)
    (hpacks : mnemonic.Packs node.children operand signedness width)
    (hliteral : operand.literal? = some literal) :
    ∃ word : Word → Word, ∀ counter symbols, node.emit counter symbols =
      (literal.pack signedness width).map fun packed => [word packed] := by
  generalize hchildren : node.children = children at hpacks
  cases hpacks with
  | immediate first second operand hmnemonic hfirst hsecond =>
    -- a number in the place of the last register
    have hformat : Format.registersNumber ∈ mnemonic.formats := by
      revert hmnemonic
      cases mnemonic <;> decide
    -- the bit above the field tells a number from a register
    have hnumber : mnemonic.packNumber literal =
        (literal.pack .signed .immediate).map fun packed => 0x20#16 ||| packed := by
      revert hmnemonic
      cases mnemonic <;>
        simp [Mnemonic.packNumber, bind, Except.bind, Except.map, pure, Except.pure]
    exact exists_word hkind hown hformat
      (read?_registersNumber hchildren hfirst hsecond hliteral)
      (packOperands_registersNumber hnumber)
  | offset first second operand hmnemonic hfirst hsecond =>
    have hformat : Format.registersNumber ∈ mnemonic.formats := by
      revert hmnemonic
      cases mnemonic <;> decide
    have hnumber : mnemonic.packNumber literal = (literal.pack .signed .baseOffset).map id := by
      revert hmnemonic
      cases mnemonic <;> simp [Mnemonic.packNumber]
    exact exists_word hkind hown hformat
      (read?_registersNumber hchildren hfirst hsecond hliteral)
      (packOperands_registersNumber hnumber)
  | vector operand =>
    -- the number is all of the field
    have hvector : Format.vector.read? node.children = some (.vector literal) := by
      rw [hchildren, Format.read?, hliteral]
      rfl
    have hnumber : ∀ next symbols, Mnemonic.trap.packOperands next symbols (.vector literal) =
        (literal.pack .unsigned .trapVector).map id := by
      intro next symbols
      rw [Mnemonic.packOperands]
      cases literal.pack .unsigned .trapVector <;> rfl
    exact exists_word hkind hown (List.mem_singleton_self _) hvector hnumber

end Node

/-! ### What an instruction does with its operands -/

/-- Operands have a format if each is of its class. -/
theorem Format.fits_iff_forall₂ {format : Format} {nodes : List Node} :
    format.fits nodes ↔
      List.Forall₂ (fun operand node => operand.accepts node.kind) format.operands nodes := by
  unfold fits
  generalize format.operands = operands
  induction operands generalizing nodes with
  | nil => cases nodes <;> simp [fitsClasses]
  | cons operand operands ih => cases nodes <;> simp [fitsClasses, ih]

section Classes

variable {kind : Node.Kind}

/-- A register is the only node taken for one. -/
theorem Operand.accepts_register_iff :
    register.accepts kind ↔ ∃ register, kind = .register register := by
  cases kind with
  | register register => exact ⟨fun _ => ⟨register, rfl⟩, fun _ => rfl⟩
  | _ => exact ⟨nofun, nofun⟩

/-- A node for flags is the only one taken for flags. -/
theorem Operand.accepts_flags_iff : flags.accepts kind ↔ ∃ flags, kind = .flags flags := by
  cases kind with
  | flags flags => exact ⟨fun _ => ⟨flags, rfl⟩, fun _ => rfl⟩
  | _ => exact ⟨nofun, nofun⟩

/-- An address is a number or a label. -/
theorem Operand.accepts_address_iff :
    address.accepts kind ↔ (∃ value, kind = .number value) ∨ kind = .labelReference := by
  cases kind with
  | number value => exact ⟨fun _ => .inl ⟨value, rfl⟩, fun _ => rfl⟩
  | labelReference => exact ⟨fun _ => .inr rfl, fun _ => rfl⟩
  | _ => exact ⟨nofun, nofun⟩

end Classes

/-- **What an instruction does with its operands**: it measures the distance to an address, it packs
    a number, or there are only registers, if anything. -/
theorem Mnemonic.measures_or_packs {mnemonic : Mnemonic} {format : Format} {nodes : List Node}
    (hformat : format ∈ mnemonic.formats) (hfits : format.fits nodes) :
    (∃ operand width, mnemonic.Measures nodes operand width ∧
        Operand.address.accepts operand.kind) ∨
      (∃ operand signedness width, mnemonic.Packs nodes operand signedness width ∧
        Operand.number.accepts operand.kind) ∨
      format ∈ [.empty, .register, .registers, .threeRegisters] := by
  obtain ⟨hnumber, hstring, hnumberAddress⟩ := mnemonic.format_notMem
  rw [Format.fits_iff_forall₂] at hfits
  -- the format tells what can be in front of the operand, and which instructions it belongs to
  cases format with
  -- registers at most
  | empty | register | registers | threeRegisters => simp
  -- formats that only directives have
  | number => exact absurd hformat hnumber
  | string => exact absurd hformat hstring
  | numberAddress => exact absurd hformat hnumberAddress
  | address =>
    -- the distance of a jump
    have hmnemonic : mnemonic ∈ [jsr, jmp] := by
      revert hformat
      cases mnemonic <;> decide
    simp only [Format.operands, List.forall₂_cons_left_iff, List.forall₂_nil_left_iff] at hfits
    obtain ⟨operand, _, haddress, rfl, rfl⟩ := hfits
    exact .inl ⟨operand, _, .jump operand hmnemonic, haddress⟩
  | branch =>
    -- the distance of a branch, behind its flags
    obtain rfl : mnemonic = .br := by
      revert hformat
      cases mnemonic <;> decide
    simp only [Format.operands, List.forall₂_cons_left_iff, List.forall₂_nil_left_iff] at hfits
    obtain ⟨first, _, hflags, ⟨operand, _, haddress, rfl, rfl⟩, rfl⟩ := hfits
    obtain ⟨_, hflags⟩ := Operand.accepts_flags_iff.mp hflags
    exact .inl ⟨operand, _, .branch first operand hflags, haddress⟩
  | registerAddress =>
    -- the distance to data, behind a register
    have hmnemonic : mnemonic ∈ [ld, ldi, lea, st, sti] := by
      revert hformat
      cases mnemonic <;> decide
    simp only [Format.operands, List.forall₂_cons_left_iff, List.forall₂_nil_left_iff] at hfits
    obtain ⟨first, _, hfirst, ⟨operand, _, haddress, rfl, rfl⟩, rfl⟩ := hfits
    obtain ⟨_, hfirst⟩ := Operand.accepts_register_iff.mp hfirst
    exact .inl ⟨operand, _, .registerAddress first operand hmnemonic hfirst, haddress⟩
  | vector =>
    -- the number of a trap
    obtain rfl : mnemonic = .trap := by
      revert hformat
      cases mnemonic <;> decide
    simp only [Format.operands, List.forall₂_cons_left_iff, List.forall₂_nil_left_iff] at hfits
    obtain ⟨operand, _, hvalue, rfl, rfl⟩ := hfits
    exact .inr (.inl ⟨operand, _, _, .vector operand, hvalue⟩)
  | registersNumber =>
    -- the immediate number of an operation, or the offset of an access, behind two registers
    have hmnemonic : mnemonic ∈ [add, and] ∨ mnemonic ∈ [ldr, str] := by
      revert hformat
      cases mnemonic <;> decide
    simp only [Format.operands, List.forall₂_cons_left_iff, List.forall₂_nil_left_iff] at hfits
    obtain ⟨first, _, hfirst, ⟨second, _, hsecond, ⟨operand, _, hvalue, rfl, rfl⟩, rfl⟩, rfl⟩ :=
      hfits
    obtain ⟨_, hfirst⟩ := Operand.accepts_register_iff.mp hfirst
    obtain ⟨_, hsecond⟩ := Operand.accepts_register_iff.mp hsecond
    rcases hmnemonic with hmnemonic | hmnemonic
    · exact .inr (.inl ⟨operand, _, _,
        .immediate first second operand hmnemonic hfirst hsecond, hvalue⟩)
    · exact .inr (.inl ⟨operand, _, _,
        .offset first second operand hmnemonic hfirst hsecond, hvalue⟩)

namespace Node

variable {node : Node} {mnemonic : Mnemonic} {format? : Option Format} {flags? : Option Flags}

/-- What the word of an instruction is made of: the distance to an address, a number, or nothing but
    what is fixed. -/
inductive Fills (node : Node) (mnemonic : Mnemonic) : Prop where
  | distance {operand : Node} {address : Address} {width : Width} {high : Word}
    (hmeasures : mnemonic.Measures node.children operand width)
    (haddress : operand.address? = some address)
    (hemit : ∀ counter symbols, node.emit counter symbols =
      (address.distance width (Counter.next counter) symbols).map fun packed =>
        [high ||| packed])
  | number {operand : Node} {literal : Literal} {signedness : Signedness} {width : Width}
    {word : Word → Word} (hpacks : mnemonic.Packs node.children operand signedness width)
    (hliteral : operand.literal? = some literal)
    (hemit : ∀ counter symbols, node.emit counter symbols =
      (literal.pack signedness width).map fun packed => [word packed])
  | fixed {word : Word} (hemit : ∀ counter symbols, node.emit counter symbols = .ok [word])

/-- An instruction with operands of one of its formats has a word of one of these kinds. -/
theorem fills_of_instruction (hkind : node.kind = .instruction mnemonic format? flags?)
    (hown : node.RecordsOwnFormat) (hformat : node.formatError? = none) :
    node.Fills mnemonic := by
  obtain ⟨format, hformat, hfits⟩ := exists_fits_of_instruction hkind hformat
  rcases Mnemonic.measures_or_packs hformat hfits with
    ⟨operand, width, hmeasures, haddress⟩ | ⟨operand, signedness, width, hpacks, hnumber⟩ | hplain
  · -- a distance to the address that the operand stands for
    rw [← isSome_address?] at haddress
    obtain ⟨address, haddress⟩ := Option.isSome_iff_exists.mp haddress
    obtain ⟨high, -, hemit⟩ := exists_emit_eq_distance hkind hown hmeasures haddress
    exact .distance hmeasures haddress hemit
  · -- the number as it is written
    rw [← isSome_literal?] at hnumber
    obtain ⟨literal, hliteral⟩ := Option.isSome_iff_exists.mp hnumber
    obtain ⟨word, hemit⟩ := exists_emit_eq_pack hkind hown hpacks hliteral
    exact .number hpacks hliteral hemit
  · -- registers have no range
    obtain ⟨operands, hread⟩ := Option.isSome_iff_exists.mp
      (show (format.read? node.children).isSome by rw [Format.isSome_read?, hfits])
    have hemit := emit_eq_encode hkind hown hformat hread
    rw [← (Format.read?_spec hread).1] at hplain
    cases operands with
    | empty | register | registers | threeRegisters => exact .fixed hemit
    | _ => simp [Arguments.format] at hplain

/-! ### What a directive does with its operands -/

/-- Whether the words of a statement are the address of a label. -/
def holdsLabel (node : Node) : Bool :=
  match node.kind, node.children.map kind with
  | .directive .fill, [.labelReference] => true
  | .directive .blkw, [_, .labelReference] => true
  | _, _ => false

/-- What the words of a directive are made of: the address that an operand stands for, or nothing
    but what is fixed. -/
inductive Stores (node : Node) (directive : Directive) : Prop where
  | address {operand : Node} {address : Address} {count : Nat}
    (hoperand : operand ∈ node.children) (haddress : operand.address? = some address)
    (hlabel : node.holdsLabel = decide (operand.kind = .labelReference))
    (hemit : ∀ symbols, node.emitDirective directive symbols =
      (address.resolve symbols).map (List.replicate count))
  | fixed {words : List Word} (hlabel : node.holdsLabel = false)
    (hemit : ∀ symbols, node.emitDirective directive symbols = .ok words)

/-- Where an address may be stored, it is that of a label if the operand is one. -/
private theorem holdsLabel_eq {operand : Node}
    (h : node.kind = .directive .fill ∧ node.children = [operand] ∨
      node.kind = .directive .blkw ∧ ∃ count, node.children = [count, operand]) :
    node.holdsLabel = decide (operand.kind = .labelReference) := by
  rcases h with ⟨hkind, hchildren⟩ | ⟨hkind, count, hchildren⟩ <;>
    simp only [holdsLabel, hkind, hchildren, List.map_cons, List.map_nil] <;>
    cases operand.kind <;> rfl

/-- A directive with operands of one of its formats has words of one of these kinds. -/
theorem stores_of_directive {directive : Directive} (hkind : node.kind = .directive directive)
    (hformat : node.formatError? = none) : node.Stores directive := by
  obtain ⟨format, hformat, hfits⟩ := exists_fits_of_directive hkind hformat
  -- some format fits, so the operands are read in the first that does
  have hfirst : (Format.readFirst? directive.formats node.children).isSome :=
    List.findSome?_isSome_iff.mpr ⟨format, hformat, by rw [Format.isSome_read?, hfits]⟩
  obtain ⟨operands, hfirst⟩ := Option.isSome_iff_exists.mp hfirst
  have hemit : ∀ symbols, node.emitDirective directive symbols =
      directive.encode symbols operands := by
    intro symbols
    rw [emitDirective, hfirst]
  obtain ⟨format, hformat, hread⟩ := exists_read?_of_readFirst? hfirst
  cases directive with
  | orig =>
    -- a number sets the load address, and no label can stand for it
    obtain rfl : format = .number := by simpa [Directive.formats] using hformat
    obtain ⟨_, _, -, -, rfl⟩ := read?_number_eq_some_iff.mp hread
    exact .fixed (by simp [holdsLabel, hkind]) hemit
  | fill =>
    -- one word, which may be the address of a label
    obtain rfl : format = .address := by simpa [Directive.formats] using hformat
    obtain ⟨operand, address, hchildren, haddress, rfl⟩ := read?_address_eq_some_iff.mp hread
    have hlabel := holdsLabel_eq (.inl ⟨hkind, hchildren⟩)
    have hwords : ∀ symbols, node.emitDirective .fill symbols =
        (address.resolve symbols).map (List.replicate 1) := by
      intro symbols
      rw [hemit, Directive.encode]
      cases address.resolve symbols <;> rfl
    exact .address (by simp [hchildren]) haddress hlabel hwords
  | blkw =>
    -- a count alone fills with zeros; behind it there may be what to fill with
    have hformats : format = .number ∨ format = .numberAddress := by
      simpa [Directive.formats] using hformat
    rcases hformats with rfl | rfl
    · obtain ⟨count, literal, hchildren, -, rfl⟩ := read?_number_eq_some_iff.mp hread
      have hlabel : node.holdsLabel = false := by
        rw [holdsLabel, hkind, hchildren]
        rfl
      exact .fixed hlabel hemit
    · obtain ⟨count, operand, hchildren, literal, -, address, haddress, rfl⟩ :=
        read?_numberAddress_eq_some_iff.mp hread
      have hlabel := holdsLabel_eq (.inr ⟨hkind, count, hchildren⟩)
      have hwords : ∀ symbols, node.emitDirective .blkw symbols =
          (address.resolve symbols).map (List.replicate literal.value.toNat) := by
        intro symbols
        rw [hemit, Directive.encode]
        cases address.resolve symbols <;> rfl
      exact .address (by simp [hchildren]) haddress hlabel hwords
  | stringz =>
    -- the characters of a string
    obtain rfl : format = .string := by simpa [Directive.formats] using hformat
    obtain ⟨_, _, -, -, rfl⟩ := read?_string_eq_some_iff.mp hread
    exact .fixed (by simp [holdsLabel, hkind]) hemit
  | endRegion =>
    -- nothing is stored at the end of a region
    have hnone : operands = .empty := by
      obtain rfl : format = .empty := by simpa [Directive.formats] using hformat
      have hsame := (Format.read?_spec hread).1
      cases operands <;> simp_all [Arguments.format]
    subst hnone
    exact .fixed (by simp [holdsLabel, hkind]) hemit

end Node

end LC3
