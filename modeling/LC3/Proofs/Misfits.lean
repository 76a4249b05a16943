import LC3.Proofs.Encoded
import LC3.Proofs.Packing
import LC3.Proofs.References
import Mathlib.Algebra.Group.Nat.Defs

namespace LC3

/-!
# Operands that do not fit

When the stages in front of encoding find no error, there is one thing left that can be wrong with a
statement: a distance, an immediate operand or a trap vector that does not fit its field. Whether it
fits depends on the statement, its place and the symbol table, and on no other statement.

* `Field.exists_ofWord_iff` — which words fit a field.
* `Node.Misfits` — the operand of a statement that does not fit, with its fault.
* `Node.Encodable.emit_eq_fault_iff` — statements have the faults of their misfits and no others.
* `Assembly.misfits_alone` — what encoding finds in a source.
-/

/-! ### Fields -/

/-- Unsigned fields hold the words that are small enough. -/
private theorem setWidth_setWidth_eq_iff {n : Nat} {value : Word} :
    (value.setWidth n).setWidth 16 = value ↔ value.toNat < 2 ^ n := by
  have hvalue : value.toNat < 2 ^ 16 := value.isLt
  rw [← BitVec.toNat_inj, BitVec.toNat_setWidth, BitVec.toNat_setWidth]
  constructor
  · intro h
    have hless : value.toNat % 2 ^ n < 2 ^ n := Nat.mod_lt _ (Nat.two_pow_pos n)
    have hle : value.toNat % 2 ^ n % 2 ^ 16 ≤ value.toNat % 2 ^ n := Nat.mod_le _ _
    omega
  · intro h
    rw [Nat.mod_eq_of_lt h, Nat.mod_eq_of_lt hvalue]

/-- A word fits a signed field if its value in two's complement does. -/
private theorem exists_ofWord_signed_iff {width : Width} {value : Word} :
    (∃ field, Field.ofWord .signed width value = .ok field) ↔
      -2 ^ (width.bits - 1) ≤ value.toInt ∧ value.toInt < 2 ^ (width.bits - 1) := by
  constructor
  · rintro ⟨field, h⟩
    obtain ⟨k, hleast, hgreatest, rfl, -⟩ := Field.ofWord_signed_eq_ok_iff.mp h
    -- a number of at most 16 bits is the value of its word
    have hpow : (2 : Int) ^ (width.bits - 1) ≤ 2 ^ 15 := by
      have hbits : width.bits - 1 ≤ 15 := by have := width.atMost; omega
      exact_mod_cast Nat.pow_le_pow_right (by decide) hbits
    have hvalue : (BitVec.ofInt 16 k).toInt = k :=
      BitVec.toInt_ofInt_eq_self (by decide) (by show -2 ^ 15 ≤ k; omega)
        (by show k < 2 ^ 15; omega)
    rw [hvalue]
    exact ⟨hleast, hgreatest⟩
  · rintro ⟨hleast, hgreatest⟩
    -- the other way, the number in question is the value of the word itself
    exact ⟨_, Field.ofWord_signed_eq_ok_iff.mpr ⟨value.toInt, hleast, hgreatest,
      BitVec.ofInt_toInt, rfl⟩⟩

/-- A word fits an unsigned field if its value does. -/
private theorem exists_ofWord_unsigned_iff {width : Width} {value : Word} :
    (∃ field, Field.ofWord .unsigned width value = .ok field) ↔
      value.toNat < 2 ^ width.bits := by
  rw [← setWidth_setWidth_eq_iff]
  unfold Field.ofWord Field.word Signedness.extend
  dsimp only
  split
  -- cut to the width of the field and extended again, it is the same word
  case isTrue h => simpa using h
  case isFalse h => simpa using h

/-- **Fields.** A word fits a field exactly if the number that it is read as is in the range of the
    field. -/
theorem Field.exists_ofWord_iff {signedness : Signedness} {width : Width} {value : Word} :
    (∃ field, Field.ofWord signedness width value = .ok field) ↔
      signedness.least width.bits ≤ signedness.read value ∧
        signedness.read value ≤ signedness.greatest width.bits := by
  cases signedness with
  | signed =>
    -- the bounds of the range are powers of two in the integers
    have hcast : ((Nat.pow 2 (width.bits - 1) : Nat) : Int) = 2 ^ (width.bits - 1) := by
      norm_cast
    rw [exists_ofWord_signed_iff]
    show _ ↔ -((Nat.pow 2 (width.bits - 1) : Nat) : Int) ≤ value.toInt ∧
      value.toInt ≤ ((Nat.pow 2 (width.bits - 1) : Nat) : Int) - 1
    rw [hcast, Int.le_sub_one_iff]
  | unsigned =>
    have hcast : ((Nat.pow 2 width.bits : Nat) : Int) = ((2 ^ width.bits : Nat) : Int) := rfl
    rw [exists_ofWord_unsigned_iff]
    show _ ↔ (0 : Int) ≤ (value.toNat : Int) ∧
      (value.toNat : Int) ≤ ((Nat.pow 2 width.bits : Nat) : Int) - 1
    rw [hcast]
    omega

/-- A number that is not in the range of its field is refused. -/
theorem Literal.pack_eq_error {literal : Literal} {signedness : Signedness} {width : Width}
    (h : ¬ (signedness.least width.bits ≤ signedness.read literal.value ∧
      signedness.read literal.value ≤ signedness.greatest width.bits)) :
    literal.pack signedness width = .error (.fault
      -- no field at all has the word, so packing fails
      ⟨.immediateOutOfRange (signedness.read literal.value) (.ofWidth signedness width),
        literal.location?⟩) := by
  have hnone : ∀ field, Field.ofWord signedness width literal.value ≠ .ok field :=
    fun field hfield => h (Field.exists_ofWord_iff.mp ⟨field, hfield⟩)
  rw [pack, Field.ofWord_eq_error hnone]

/-- A number in the range of its field goes into it. -/
theorem Literal.exists_pack {signedness : Signedness} {width : Width} (literal : Literal)
    (h : signedness.least width.bits ≤ signedness.read literal.value ∧
      signedness.read literal.value ≤ signedness.greatest width.bits) :
    ∃ word, literal.pack signedness width = .ok word := by
  obtain ⟨field, hfield⟩ := Field.exists_ofWord_iff.mpr h
  exact ⟨field.packed, by rw [pack, hfield]⟩

/-! ### Misfits -/

/-- The operand of a statement that does not fit its field, with its fault. The distance to an
    address is measured from the address behind the statement, and no distance that leads there fits
    its field; a number is not in the range of its field. -/
inductive Node.Misfits (node : Node) (next : Word) (symbols : SymbolTable) :
    AssemblyFault → Prop where
  | distance {mnemonic : Mnemonic} {format? : Option Format} {flags? : Option Flags}
    {operand : Node} {width : Width} {target : Word}
    (hkind : node.kind = .instruction mnemonic format? flags?)
    (hmeasures : mnemonic.Measures node.children operand width)
    (hdenotes : operand.Denotes symbols target) (hmissed : ¬ ∃ k, width.Reaches next target k) :
    Misfits node next symbols ⟨.offsetOutOfRange (target - next).toInt (.ofWidth .signed width),
      operand.location?⟩
  | number {mnemonic : Mnemonic} {format? : Option Format} {flags? : Option Flags}
    {operand : Node} {signedness : Signedness} {width : Width} {value : Word}
    (hkind : node.kind = .instruction mnemonic format? flags?)
    (hpacks : mnemonic.Packs node.children operand signedness width)
    (hvalue : operand.kind = .number value)
    (hrange : ¬ (signedness.least width.bits ≤ signedness.read value ∧
      signedness.read value ≤ signedness.greatest width.bits)) :
    Misfits node next symbols ⟨.immediateOutOfRange (signedness.read value)
      (.ofWidth signedness width), operand.location?⟩

namespace Node

variable {node operand : Node} {mnemonic : Mnemonic} {format? : Option Format}
  {flags? : Option Flags} {counter : Counter} {symbols : SymbolTable} {fault : AssemblyFault}

/-- A statement that the stages in front of encoding have nothing against: it has operands of one of
    its formats, and the labels among them are in the symbol table. -/
structure Encodable (node : Node) (symbols : SymbolTable) : Prop where
  recordsOwnFormat : node.RecordsOwnFormat
  formatError? : node.formatError? = none
  resolves : ∀ operand ∈ node.children, operand.kind = .labelReference →
    ∃ target, symbols.lookup operand.text = some target

/-- The address operands of such a statement stand for addresses. -/
theorem Encodable.exists_denotes (h : node.Encodable symbols) (hoperand : operand ∈ node.children)
    (haddress : Operand.address.accepts operand.kind) :
    ∃ target, operand.Denotes symbols target := by
  rcases Operand.accepts_address_iff.mp haddress with ⟨value, hkind⟩ | hkind
  · exact ⟨value, .number hkind⟩
  · obtain ⟨target, hlookup⟩ := h.resolves operand hoperand hkind
    exact ⟨target, .label hkind hlookup⟩

/-- A statement with an operand that does not fit has the fault of this operand. -/
theorem Misfits.emit_eq (h : node.Misfits counter.next symbols fault)
    (hown : node.RecordsOwnFormat) : node.emit counter symbols = .error (.fault fault) := by
  cases h with
  | distance hkind hmeasures hdenotes hmissed =>
    -- the address is known, but no distance leads there
    obtain ⟨address, haddress, hresolve, hlocation⟩ := hdenotes.exists_address
    obtain ⟨high, -, hemit⟩ := exists_emit_eq_distance hkind hown hmeasures haddress
    rw [hemit, Address.distance_of_not_reaches hresolve (not_exists.mp hmissed), hlocation]
    rfl
  | @number _ _ _ operand _ _ value hkind hpacks hvalue hrange =>
    have hliteral : operand.literal? = some ⟨value, operand.location?⟩ := by
      rw [literal?, hvalue]
    obtain ⟨word, hemit⟩ := exists_emit_eq_pack hkind hown hpacks hliteral
    rw [hemit, Literal.pack_eq_error hrange]
    rfl

/-- An instruction is encoded, or it has an operand that does not fit. -/
theorem Encodable.emit_or_misfits (h : node.Encodable symbols)
    (hkind : node.kind = .instruction mnemonic format? flags?) (counter : Counter) :
    (∃ words, node.emit counter symbols = .ok words) ∨
      ∃ fault, node.Misfits counter.next symbols fault := by
  cases fills_of_instruction hkind h.recordsOwnFormat h.formatError? with
  | @distance operand address width high hmeasures haddress hemit =>
    -- the distance to the address that the operand stands for fits, or the operand is a misfit
    have haccepts := accepts_of_address? haddress
    obtain ⟨target, hdenotes⟩ := h.exists_denotes (mem_of_measures hmeasures) haccepts
    by_cases hreached : ∃ k, width.Reaches counter.next target k
    · -- the field holds the distance, below the bits that do not depend on it
      obtain ⟨k, hk⟩ := hreached
      obtain ⟨address', haddress', hresolve, -⟩ := hdenotes.exists_address
      obtain rfl := Option.some.inj (haddress.symm.trans haddress')
      refine .inl ⟨[high ||| (BitVec.ofInt width.bits k).setWidth 16], ?_⟩
      rw [hemit, Address.distance_of_reaches hresolve hk]
      rfl
    · exact .inr ⟨_, .distance hkind hmeasures hdenotes hreached⟩
  | @number operand literal signedness width word hpacks hliteral hemit =>
    -- a number is packed if it is in the range of its field
    by_cases hrange : signedness.least width.bits ≤ signedness.read literal.value ∧
        signedness.read literal.value ≤ signedness.greatest width.bits
    · obtain ⟨packed, hpacked⟩ := literal.exists_pack hrange
      refine .inl ⟨[word packed], ?_⟩
      rw [hemit, hpacked]
      rfl
    · exact .inr ⟨_, .number hkind hpacks (kind_of_literal? hliteral) hrange⟩
  -- without such an operand, nothing can go wrong
  | fixed hemit => exact .inl ⟨_, hemit counter symbols⟩

/-- Directives are always encoded. -/
theorem Encodable.exists_emitDirective {directive : Directive} (h : node.Encodable symbols)
    (hkind : node.kind = .directive directive) :
    ∃ words, node.emitDirective directive symbols = .ok words := by
  cases stores_of_directive hkind h.formatError? with
  | @address operand address count hoperand haddress _ hemit =>
    -- a word, or a count of words, that may be the address of a label
    have haccepts := accepts_of_address? haddress
    obtain ⟨target, hdenotes⟩ := h.exists_denotes hoperand haccepts
    obtain ⟨address', haddress', hvalue, -⟩ := hdenotes.exists_address
    obtain rfl := Option.some.inj (haddress.symm.trans haddress')
    exact ⟨List.replicate count target, by rw [hemit, hvalue, Except.map]⟩
  | fixed _ hemit => exact ⟨_, hemit symbols⟩

/-- **Statements have the faults of their misfits**, and no others. -/
theorem Encodable.emit_eq_fault_iff (h : node.Encodable symbols) :
    node.emit counter symbols = .error (.fault fault) ↔
      node.Misfits counter.next symbols fault := by
  constructor
  · intro hemit
    cases hkind : node.kind with
    | instruction mnemonic format? flags? =>
      -- encoded or a misfit; and a misfit has this one fault
      rcases h.emit_or_misfits hkind counter with ⟨words, hwords⟩ | ⟨fault', hmisfits⟩
      · rw [hwords] at hemit
        cases hemit
      · rw [hmisfits.emit_eq h.recordsOwnFormat] at hemit
        cases hemit
        exact hmisfits
    | directive directive =>
      obtain ⟨words, hwords⟩ := h.exists_emitDirective hkind
      simp [emit, hkind, hwords] at hemit
    | _ => simp [emit, hkind, pure, Except.pure] at hemit
  · exact fun hmisfits => hmisfits.emit_eq h.recordsOwnFormat

/-- An entry of a listing has the faults of its misfits. -/
theorem Encodable.fault?_eq_some_iff {entry : Listing.Entry} (h : entry.node.Encodable symbols) :
    entry.fault? symbols = some fault ↔ entry.node.Misfits entry.counter.next symbols fault := by
  rw [← h.emit_eq_fault_iff, Listing.Entry.fault?_eq_some_iff]

/-- A misfit is out of the range of its field, as a distance or as a number. -/
theorem Misfits.outOfRange {next : Word} (h : node.Misfits next symbols fault) :
    (∃ offset range, fault.error = .offsetOutOfRange offset range) ∨
      ∃ value range, fault.error = .immediateOutOfRange value range := by
  cases h with
  | distance => exact .inl ⟨_, _, rfl⟩
  | number => exact .inr ⟨_, _, rfl⟩

/-- Only instructions have misfits. -/
theorem Misfits.kind_ne_directive {next : Word} (h : node.Misfits next symbols fault)
    (directive : Directive) : node.kind ≠ .directive directive := by
  cases h with
  | distance hkind | number hkind =>
    rw [hkind]
    exact Kind.noConfusion

/-! ### Other instructions -/

/-- What can take the place of a statement without moving what follows: another instruction for an
    instruction, and else only the statement itself. -/
inductive StandsFor (node : Node) : Node → Prop where
  | same : StandsFor node node
  | instruction {other : Node} {mnemonic mnemonic' : Mnemonic} {format? format?' : Option Format}
    {flags? flags?' : Option Flags} (hkind : node.kind = .instruction mnemonic format? flags?)
    (hkind' : other.kind = .instruction mnemonic' format?' flags?')
    (hown : other.RecordsOwnFormat) : StandsFor node other

variable {other : Node} {nodes others : List Node}

/-- What stands for a statement records a format of its own, too. -/
theorem StandsFor.recordsOwnFormat (h : node.StandsFor other) (hown : node.RecordsOwnFormat) :
    other.RecordsOwnFormat := by
  cases h with
  | same => exact hown
  | instruction _ _ hown' => exact hown'

/-- Counters go on in the same way behind what stands for a statement. -/
theorem StandsFor.step_eq (h : node.StandsFor other) (counter : Counter) :
    counter.step other = counter.step node := by
  cases h with
  | same => rfl
  | instruction hkind hkind' => simp [Counter.step, wordCount, hkind, hkind']

/-- Labels do not depend on which instruction has their address. -/
theorem StandsFor.visit_eq (h : node.StandsFor other) (binder : Binder) :
    binder.visit other = binder.visit node := by
  have hstep := h.step_eq binder.counter
  cases h with
  -- an instruction has an address as the other has, the same one
  | same => rfl
  | instruction hkind hkind' =>
    rw [Binder.visit_isAddressed binder (by simp [hkind', Binder.isAddressed]),
      Binder.visit_isAddressed binder (by simp [hkind, Binder.isAddressed]), hstep]

/-- Labels are bound to the same addresses. -/
theorem foldl_visit_of_standsFor (h : List.Forall₂ StandsFor nodes others) (binder : Binder) :
    others.foldl Binder.visit binder = nodes.foldl Binder.visit binder := by
  induction h generalizing binder with
  | nil => rfl
  | cons hnode _ ih => rw [List.foldl_cons, List.foldl_cons, hnode.visit_eq, ih]

/-- Statements are listed at the same places whatever instructions the others are, and have the same
    faults there. -/
theorem forall₂_listing_of_standsFor (h : List.Forall₂ StandsFor nodes others) (counter : Counter)
    (symbols : SymbolTable) :
    List.Forall₂ (fun entry other : Listing.Entry => other.counter = entry.counter ∧
        (other.node = entry.node → other.fault? symbols = entry.fault? symbols))
      (listing symbols counter nodes) (listing symbols counter others) := by
  induction h generalizing counter with
  | nil => exact .nil
  | cons hnode _ ih =>
    have hcounter := hnode.step_eq counter
    refine .cons ⟨hcounter, fun hsame => ?_⟩ ?_
    · -- the same statement at the same address has the same fault
      dsimp only at hsame
      subst hsame
      rfl
    · -- and the counters stay the same behind it
      rw [hcounter]
      exact ih (counter.step _)

end Node

/-! ### Sources -/

namespace Assembly

variable {source : String} {symbols : SymbolTable} {root : Node}

/-- Behind the stages in front of encoding, every statement can be encoded but for its misfits. -/
theorem encodable_of_stagesOf? (h : stagesOf? source = some (symbols, root)) :
    ∀ node ∈ root.children, node.Encodable symbols := by
  obtain ⟨result, tree, hparse, htree, hroot, hsymbols⟩ := stagesOf?_eq_some_iff.mp h
  have hprogram : root.IsProgram := (Node.isProgram_of_parse hparse htree).analyze hroot
  have hown : ∀ node ∈ root.children, node.RecordsOwnFormat :=
    ((Node.comesFrom_of_parse hparse htree).analyze hroot).recordsOwnFormat
  intro node hnode
  exact ⟨hown node hnode, Node.formatError?_eq_none (countP_regionNotices hroot) hnode,
    fun operand hoperand hkind => hprogram.exists_lookup hsymbols hnode hoperand hkind⟩

/-- Other instructions leave the symbol table as it is. -/
private theorem table_eq_of_standsFor {others : List Node} {symbols' : SymbolTable}
    (hothers : List.Forall₂ Node.StandsFor root.children others)
    (hsymbols : (SymbolTable.build root).outcome = .ok symbols)
    (hsymbols' : (SymbolTable.build (.root others)).outcome = .ok symbols') :
    symbols' = symbols := by
  obtain ⟨-, -, rfl⟩ := SymbolTable.outcome_build_eq_ok hsymbols
  obtain ⟨-, -, rfl⟩ := SymbolTable.outcome_build_eq_ok hsymbols'
  -- the walk over the statements binds the same labels to the same addresses
  have hwalk := Node.foldl_visit_of_standsFor hothers .start
  show SymbolTable.ofList (others.foldl Binder.visit .start).bound =
    SymbolTable.ofList (root.children.foldl Binder.visit .start).bound
  rw [hwalk]

/-- **What encoding finds.** When the stages in front of encoding find no error in a source, the
    errors of encoding are the operands that do not fit, at most one for each statement and in
    order. A directive has none. Other instructions in the place of some of those of the source,
    with faults or without, change neither the addresses of labels nor what is found elsewhere. -/
theorem misfits_alone (h : stagesOf? source = some (symbols, root)) :
    (∃ encoded, root.encode symbols = .ok encoded ∧
      encoded.notices = ((Node.listing symbols .start root.children).filterMap
        (·.fault? symbols)).map AssemblyFault.notice) ∧
    (∀ entry ∈ Node.listing symbols .start root.children,
      (∀ fault, entry.fault? symbols = some fault ↔
        entry.node.Misfits entry.counter.next symbols fault) ∧
      (∀ fault, entry.fault? symbols = some fault →
        (∃ offset range, fault.error = .offsetOutOfRange offset range) ∨
          ∃ value range, fault.error = .immediateOutOfRange value range) ∧
      (entry.fault? symbols = none → entry.node.emit entry.counter symbols = .ok entry.words) ∧
      ∀ directive, entry.node.kind = .directive directive → entry.fault? symbols = none) ∧
    ∀ others, List.Forall₂ Node.StandsFor root.children others →
      (∀ symbols', (SymbolTable.build (.root others)).outcome = .ok symbols' →
        symbols' = symbols) ∧
      (∃ encoded, (Node.root others).encode symbols = .ok encoded ∧
        encoded.notices = ((Node.listing symbols .start others).filterMap
          (·.fault? symbols)).map AssemblyFault.notice) ∧
      List.Forall₂ (fun entry other : Listing.Entry => other.counter = entry.counter ∧
          (other.node = entry.node → other.fault? symbols = entry.fault? symbols))
        (Node.listing symbols .start root.children) (Node.listing symbols .start others) := by
  have hready := encodable_of_stagesOf? h
  have hown : ∀ node ∈ root.children, node.RecordsOwnFormat :=
    fun node hnode => (hready node hnode).recordsOwnFormat
  refine ⟨?_, fun entry hentry => ?_, fun others hothers => ⟨?_, ?_, ?_⟩⟩
  · -- the faults are those of the entries, in the order of the listing
    obtain ⟨log, hencode⟩ := Node.encode_eq_listing hown symbols
    exact ⟨_, hencode, rfl⟩
  · -- one entry: its fault is its misfit, and without one it is encoded
    have hentryReady := hready entry.node (Node.mem_of_mem_listing hentry)
    refine ⟨fun fault => hentryReady.fault?_eq_some_iff, fun fault hfault => ?_,
      (Node.fault?_eq_none_iff hentry hentryReady.recordsOwnFormat).mp, fun directive hkind => ?_⟩
    · exact (hentryReady.fault?_eq_some_iff.mp hfault).outOfRange
    · refine Option.eq_none_iff_forall_ne_some.mpr fun fault hfault => ?_
      exact (hentryReady.fault?_eq_some_iff.mp hfault).kind_ne_directive directive hkind
  · -- other instructions: the addresses of labels are the same
    obtain ⟨-, -, -, -, -, hsymbols⟩ := stagesOf?_eq_some_iff.mp h
    exact fun symbols' => table_eq_of_standsFor hothers hsymbols
  · -- they record formats of their own, so that they are encoded entry by entry as well
    have hothers' : ∀ node ∈ (Node.root others).children, node.RecordsOwnFormat := by
      intro other hother
      obtain ⟨node, hnode, hstands⟩ := exists_mem_of_forall₂ hothers hother
      exact hstands.recordsOwnFormat (hown node hnode)
    obtain ⟨log, hencode⟩ := Node.encode_eq_listing hothers' symbols
    exact ⟨_, hencode, rfl⟩
  · -- what is found at the statements that stay is the same
    exact Node.forall₂_listing_of_standsFor hothers .start symbols

/-- A number, a distance and a trap vector that do not fit, between statements that do. -/
theorem misfits_alone_three :
    let source :=
      ".orig x3000\nADD R0, R0, #-17\nBR FAR\nNOT R1, R1\n.blkw 255\nFAR TRAP x100\n.end"
    ∃ symbols root, stagesOf? source = some (symbols, root) ∧
      ∃ encoded, root.encode symbols = .ok encoded ∧
        encoded.notices = ((Node.listing symbols .start root.children).filterMap
          (·.fault? symbols)).map AssemblyFault.notice ∧
        encoded.notices.map Notice.problem =
          [.assembly (.immediateOutOfRange (-17) (.ofWidth .signed .immediate)),
            .assembly (.offsetOutOfRange 256 (.ofWidth .signed .distance)),
            .assembly (.immediateOutOfRange 256 (.ofWidth .unsigned .trapVector))] := by
  intro source
  have hfound : (stagesOf? source).map (fun stages =>
      (stages.2.encode stages.1).map fun encoded => encoded.notices.map Notice.problem) =
      some (.ok [.assembly (.immediateOutOfRange (-17) (.ofWidth .signed .immediate)),
        .assembly (.offsetOutOfRange 256 (.ofWidth .signed .distance)),
        .assembly (.immediateOutOfRange 256 (.ofWidth .unsigned .trapVector))]) := by
    decide +kernel
  obtain ⟨⟨symbols, root⟩, hstages, hproblems⟩ := Option.map_eq_some_iff.mp hfound
  obtain ⟨⟨encoded, hencode, hnotices⟩, -, -⟩ := misfits_alone hstages
  dsimp only at hproblems
  rw [hencode] at hproblems
  exact ⟨symbols, root, hstages, encoded, hencode, hnotices, Except.ok.inj hproblems⟩

end Assembly

end LC3
