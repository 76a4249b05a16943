import LC3.Proofs.Analysis
import LC3.Proofs.Formats
import Mathlib.Algebra.Ring.Int.Defs

namespace LC3

/-!
# Distances

An instruction that names an address holds the distance to it, from the address behind the
instruction and in two's complement. Addresses wrap, so a distance leads from an address to another
one modulo the size of memory.

* `Width.Reaches` — a distance fits a field and leads from an address to another.
* `Field.ofWord_signed_eq_ok_iff` — which words fit a signed field.
* `Mnemonic.Measures` — which operand an instruction measures the distance to, and in which width.
* `Node.emit_distance` — the field is exact, and it is refused only when no distance would do.
-/

/-! ### Signed fields -/

/-- A distance that fits a signed field and leads from an address to another, modulo the size of
    memory. -/
structure Width.Reaches (width : Width) (origin target : Word) (distance : Int) : Prop where
  least : -2 ^ (width.bits - 1) ≤ distance
  greatest : distance < 2 ^ (width.bits - 1)
  arrives : (origin.toNat + distance) % 2 ^ 16 = target.toNat

/-- Cutting a number to its low bits commutes with writing it in two's complement. -/
private theorem setWidth_ofInt {n : Nat} (k : Int) (hn : n ≤ 16) :
    (BitVec.ofInt 16 k).setWidth n = BitVec.ofInt n k := by
  apply BitVec.eq_of_toInt_eq
  rw [BitVec.toInt_setWidth, BitVec.toInt_ofInt, BitVec.toNat_ofInt]
  -- both sides are residues modulo the smaller power, which divides the larger one
  have hdvd : ((2 ^ n : Nat) : Int) ∣ ((2 ^ 16 : Nat) : Int) := by
    exact_mod_cast Nat.pow_dvd_pow 2 hn
  rw [Int.toNat_of_nonneg (Int.emod_nonneg _ (by decide)), ← Int.emod_bmod,
    Int.emod_emod_of_dvd _ hdvd, Int.emod_bmod]

/-- A distance leads from an address to another if it is their difference as a word. -/
theorem ofInt_eq_sub_iff {origin target : Word} {k : Int} :
    BitVec.ofInt 16 k = target - origin ↔ (origin.toNat + k) % 2 ^ 16 = target.toNat := by
  -- adding the distance to the address is adding it modulo the number of words
  have hword : BitVec.ofInt 16 (origin.toNat + k) = origin + BitVec.ofInt 16 k := by
    rw [BitVec.ofInt_add, BitVec.ofInt_natCast, BitVec.ofNat_toNat, BitVec.setWidth_eq]
  rw [BitVec.eq_sub_iff_add_eq, BitVec.add_comm, ← hword, ← BitVec.toNat_inj, BitVec.toNat_ofInt]
  have hnonneg : 0 ≤ (origin.toNat + k) % ((2 ^ 16 : Nat) : Int) :=
    Int.emod_nonneg _ (by decide)
  constructor
  · intro h
    rw [← h, Int.toNat_of_nonneg hnonneg]
    rfl
  · intro h
    have h' : (origin.toNat + k) % ((2 ^ 16 : Nat) : Int) = target.toNat := h
    rw [h', Int.toNat_natCast]

/-- Narrow words are extended by their two's complement value. -/
theorem signExtend_ofInt {width : Width} {k : Int}
    (hleast : -2 ^ (width.bits - 1) ≤ k) (hgreatest : k < 2 ^ (width.bits - 1)) :
    (BitVec.ofInt width.bits k).signExtend 16 = BitVec.ofInt 16 k := by
  have hvalue : (BitVec.ofInt width.bits k).toInt = k :=
    BitVec.toInt_ofInt_eq_self width.positive hleast hgreatest
  show BitVec.ofInt 16 (BitVec.ofInt width.bits k).toInt = BitVec.ofInt 16 k
  rw [hvalue]

/-- **Signed fields.** A word fits a signed field if a number in the range of the field has it as
    its two's complement form, and then the field holds that number. -/
theorem Field.ofWord_signed_eq_ok_iff {width : Width} {value : Word}
    {field : Field .signed width} :
    Field.ofWord .signed width value = .ok field ↔
      ∃ k : Int, -2 ^ (width.bits - 1) ≤ k ∧ k < 2 ^ (width.bits - 1) ∧
        BitVec.ofInt 16 k = value ∧ field.bits = BitVec.ofInt width.bits k := by
  unfold Field.ofWord Field.word Signedness.extend
  dsimp only
  constructor
  · intro h
    split at h
    case isFalse => cases h
    case isTrue hfits =>
      obtain rfl := Except.ok.inj h
      -- the number is the value of the low bits
      refine ⟨(value.setWidth width.bits).toInt, BitVec.le_toInt _,
        BitVec.toInt_lt, hfits, ?_⟩
      exact BitVec.ofInt_toInt.symm
  · rintro ⟨k, hleast, hgreatest, rfl, hbits⟩
    -- the low bits of the word are the number, and sign-extending them gives the word back
    have hcut := setWidth_ofInt k width.atMost
    have hfits : ((BitVec.ofInt 16 k).setWidth width.bits).signExtend 16 = BitVec.ofInt 16 k := by
      rw [hcut, signExtend_ofInt hleast hgreatest]
    rw [if_pos hfits, hcut, ← hbits]

/-- Words that do not fit a signed field are refused, with the range of the field. -/
theorem Field.ofWord_eq_error {signedness : Signedness} {width : Width} {value : Word}
    (h : ∀ field, Field.ofWord signedness width value ≠ .ok field) :
    Field.ofWord signedness width value = .error (.ofWidth signedness width) := by
  unfold Field.ofWord at h ⊢
  dsimp only at h ⊢
  split
  case isTrue hfits => exact absurd (if_pos hfits) (h _)
  case isFalse => rfl

namespace Address

variable {address : Address} {symbols : SymbolTable} {width : Width} {next target : Word}

/-- A distance that reaches the target is the one that goes into the field. -/
theorem distance_of_reaches {k : Int} (hresolve : address.resolve symbols = .ok target)
    (hreaches : width.Reaches next target k) :
    address.distance width next symbols = .ok ((BitVec.ofInt width.bits k).setWidth 16) := by
  have hfield : Field.ofWord .signed width (target - next) = .ok ⟨BitVec.ofInt width.bits k⟩ :=
    Field.ofWord_signed_eq_ok_iff.mpr ⟨k, hreaches.least, hreaches.greatest,
      ofInt_eq_sub_iff.mpr hreaches.arrives, rfl⟩
  unfold distance
  rw [hresolve]
  dsimp only [bind, Except.bind]
  rw [hfield]
  rfl

/-- A target that no distance reaches is refused, with its distance read as a signed word. -/
theorem distance_of_not_reaches (hresolve : address.resolve symbols = .ok target)
    (hreaches : ∀ k, ¬ width.Reaches next target k) :
    address.distance width next symbols =
      .error (.fault ⟨.offsetOutOfRange (target - next).toInt (.ofWidth .signed width),
        address.location?⟩) := by
  -- a field that held the difference would be a distance that reaches the target
  have hfield : ∀ field, Field.ofWord .signed width (target - next) ≠ .ok field := by
    intro field h
    obtain ⟨k, hleast, hgreatest, hword, -⟩ := Field.ofWord_signed_eq_ok_iff.mp h
    exact hreaches k ⟨hleast, hgreatest, ofInt_eq_sub_iff.mp hword⟩
  unfold distance
  rw [hresolve]
  dsimp only [bind, Except.bind]
  rw [Field.ofWord_eq_error hfield]

end Address

/-! ### Instructions with an address operand -/

/-- The operands of an instruction that measures the distance to the address in one of them, with
    that operand and the width of the field. -/
inductive Mnemonic.Measures : Mnemonic → List Node → Node → Width → Prop where
  /-- `BRnz LOOP` -/
  | branch {condition : Flags} (flags operand : Node) (hflags : flags.kind = .flags condition) :
    Measures .br [flags, operand] operand .distance
  /-- `LD R0, VALUE` -/
  | registerAddress {mnemonic : Mnemonic} {number : Register} (register operand : Node)
    (hmnemonic : mnemonic ∈ [ld, ldi, lea, st, sti])
    (hregister : register.kind = .register number) :
    Measures mnemonic [register, operand] operand .distance
  /-- `JSR SUB` -/
  | jump {mnemonic : Mnemonic} (operand : Node) (hmnemonic : mnemonic ∈ [jsr, jmp]) :
    Measures mnemonic [operand] operand .jumpDistance

/-- The address that an operand stands for: a number, or a label of a symbol table. -/
inductive Node.Denotes (operand : Node) (symbols : SymbolTable) (target : Word) : Prop where
  | number (hkind : operand.kind = .number target)
  | label (hkind : operand.kind = .labelReference)
    (hlookup : symbols.lookup operand.text = some target)

namespace Node

variable {node operand : Node} {mnemonic : Mnemonic} {recorded? : Option Format}
  {flags? : Option Flags} {width : Width} {symbols : SymbolTable} {target : Word}

/-- An operand that stands for an address is read as one. -/
theorem Denotes.exists_address (h : operand.Denotes symbols target) :
    ∃ address : Address, operand.address? = some address ∧
      address.resolve symbols = .ok target ∧ address.location? = operand.location? := by
  unfold address?
  cases h with
  | number hkind =>
    rw [hkind]
    exact ⟨_, rfl, rfl, rfl⟩
  | label hkind hlookup =>
    rw [hkind]
    refine ⟨_, rfl, ?_, rfl⟩
    rw [Address.resolve, hlookup]

/-- The flags are above the nine bits of a distance. -/
private theorem pack_eq_zero (condition : Flags) : condition.pack.setWidth 9 = 0#9 := by
  rcases condition with ⟨_ | _, _ | _, _ | _⟩ <;> rfl

/-- A register in the first place is above the nine bits of a distance. -/
private theorem packAt_eq_zero (number : Register) : (number.packAt 9).setWidth 9 = 0#9 := by
  rcases number with ⟨bits⟩
  revert bits
  decide

/-- Fixed bits of an instruction that measures a distance stand above its field. -/
private theorem word_eq_zero (h : mnemonic ∈ [.br, .ld, .ldi, .lea, .st, .sti]) :
    mnemonic.word.setWidth 9 = 0#9 := by
  revert h
  cases mnemonic <;> decide

/-- The fixed bits of a jump are above the eleven bits of its distance. -/
private theorem word_eq_zero_of_jump (h : mnemonic ∈ [.jsr, .jmp]) :
    mnemonic.word.setWidth 11 = 0#11 := by
  revert h
  cases mnemonic <;> decide

/-- The word of an instruction is its fixed bits and those of its operands. -/
theorem encode_eq_map {next : Word} {operands : Arguments} {change : Word → Word}
    {packed : Except EncodingError Word}
    (h : mnemonic.packOperands next symbols operands = packed.map change) :
    (mnemonic.encode next symbols operands).map (fun word => [word]) =
      packed.map fun bits => [mnemonic.word ||| change bits] := by
  unfold Mnemonic.encode
  rw [h]
  cases packed <;> rfl

/-- The words of an instruction whose operands are known. -/
theorem emit_eq_of_instructionArguments? {operands : Arguments}
    (hkind : node.kind = .instruction mnemonic recorded? flags?)
    (harguments : node.instructionArguments? mnemonic recorded? = some operands)
    (counter : Counter) (symbols : SymbolTable) :
    node.emit counter symbols =
      (mnemonic.encode counter.next symbols operands).map fun word => [word] := by
  unfold emit
  rw [hkind]
  dsimp only
  rw [harguments]
  rfl

/-- The words of an instruction with operands in a format of it. -/
theorem emit_eq_encode {format : Format} {operands : Arguments}
    (hkind : node.kind = .instruction mnemonic recorded? flags?)
    (hrecorded : node.RecordsOwnFormat)
    (hformat : format ∈ mnemonic.formats) (hread : format.read? node.children = some operands)
    (counter : Counter) (symbols : SymbolTable) :
    node.emit counter symbols =
      (mnemonic.encode counter.next symbols operands).map fun word => [word] := by
  -- the operands have the recorded format only if it is one of the instruction
  have hfits : format.fits node.children := by rw [← Format.isSome_read?, hread]; rfl
  have harguments : node.instructionArguments? mnemonic recorded? = some operands := by
    rw [instructionArguments?_eq hformat hfits fun recorded hsome _ =>
      hrecorded mnemonic recorded flags? (by rw [hkind, hsome]),
      hread]
  exact emit_eq_of_instructionArguments? hkind harguments counter symbols

/-- The word of an instruction whose operands are packed into fixed bits and a distance. -/
private theorem exists_high {format : Format} {operands : Arguments} {address : Address}
    {low : Word} (hkind : node.kind = .instruction mnemonic recorded? flags?)
    (hrecorded : node.RecordsOwnFormat)
    (hformat : format ∈ mnemonic.formats) (hread : format.read? node.children = some operands)
    (hzero : (mnemonic.word ||| low).setWidth width.bits = 0#(width.bits))
    (hpack : ∀ next symbols, mnemonic.packOperands next symbols operands =
      (address.distance width next symbols).map fun packed => low ||| packed) :
    ∃ high : Word, high.setWidth width.bits = 0#(width.bits) ∧
      ∀ counter symbols, node.emit counter symbols =
        (address.distance width (Counter.next counter) symbols).map fun packed =>
          [high ||| packed] := by
  -- the fixed bits of the instruction and those of its other operands
  refine ⟨mnemonic.word ||| low, hzero, ?_⟩
  intro counter symbols
  rw [emit_eq_encode hkind hrecorded hformat hread, encode_eq_map (hpack counter.next symbols)]
  simp only [BitVec.or_assoc]

/-- The word of an instruction with an address operand is the distance to it, below bits that do
    not depend on the distance. -/
theorem exists_emit_eq_distance {address : Address}
    (hkind : node.kind = .instruction mnemonic recorded? flags?)
    (hrecorded : node.RecordsOwnFormat)
    (hmeasures : mnemonic.Measures node.children operand width)
    (haddress : operand.address? = some address) :
    ∃ high : Word, high.setWidth width.bits = 0#(width.bits) ∧
      ∀ counter symbols, node.emit counter symbols =
        (address.distance width (Counter.next counter) symbols).map fun packed =>
          [high ||| packed] := by
  generalize hchildren : node.children = children at hmeasures
  cases hmeasures with
  | @branch condition flags operand hflags =>
    have hread : Format.branch.read? node.children = some (.branch condition address) := by
      rw [hchildren, Format.read?, Node.flags?, hflags, haddress]
      rfl
    have hzero : (Mnemonic.br.word ||| condition.pack).setWidth 9 = 0#9 := by
      rw [BitVec.setWidth_or, pack_eq_zero]
      rfl
    exact exists_high hkind hrecorded (List.mem_singleton_self _) hread hzero fun _ _ => rfl
  | @registerAddress _ number register operand hmnemonic hregister =>
    have hread : Format.registerAddress.read? node.children =
        some (.registerAddress number address) := by
      rw [hchildren, Format.read?, register?, hregister, haddress]
      rfl
    have hformat : Format.registerAddress ∈ mnemonic.formats := by
      revert hmnemonic
      cases mnemonic <;> decide
    have hzero : (mnemonic.word ||| number.packAt 9).setWidth 9 = 0#9 := by
      rw [BitVec.setWidth_or, packAt_eq_zero, word_eq_zero (List.mem_cons_of_mem _ hmnemonic)]
      rfl
    exact exists_high hkind hrecorded hformat hread hzero fun _ _ => rfl
  | jump operand hmnemonic =>
    have hread : Format.address.read? node.children = some (.address address) := by
      rw [hchildren, Format.read?, haddress]
      rfl
    have hformat : Format.address ∈ mnemonic.formats := by
      revert hmnemonic
      cases mnemonic <;> decide
    have hzero : (mnemonic.word ||| 0#16).setWidth 11 = 0#11 := by
      rw [BitVec.or_zero]
      exact word_eq_zero_of_jump hmnemonic
    refine exists_high hkind hrecorded hformat hread hzero ?_
    -- there is nothing but the distance to pack
    intro next symbols
    show address.distance .jumpDistance next symbols = _
    cases address.distance .jumpDistance next symbols with
    | error error => rfl
    | ok bits => exact congrArg Except.ok BitVec.zero_or.symm

/-- **Distances are exact.** An instruction with an address operand has a word exactly if some
    distance that fits its field leads from the address behind it to that of the operand. The low
    bits of the word are that distance in two's complement, and sign-extending them leads back to
    the address. Without such a distance the operand is refused, with the difference of the two
    addresses as a signed word and the range of the field. -/
theorem emit_distance
    (hkind : node.kind = .instruction mnemonic recorded? flags?)
    (hrecorded : node.RecordsOwnFormat)
    (hmeasures : mnemonic.Measures node.children operand width) (counter : Counter)
    (hdenotes : operand.Denotes symbols target) :
    ((∃ words, node.emit counter symbols = .ok words) ↔
      ∃ k, width.Reaches counter.next target k) ∧
    (∀ words k, node.emit counter symbols = .ok words → width.Reaches counter.next target k →
      ∃ word : Word, words = [word] ∧ word.setWidth width.bits = BitVec.ofInt width.bits k ∧
        counter.next + (word.setWidth width.bits).signExtend 16 = target) ∧
    ((¬ ∃ k, width.Reaches counter.next target k) → node.emit counter symbols =
      .error (.fault ⟨.offsetOutOfRange (target - counter.next).toInt (.ofWidth .signed width),
        operand.location?⟩)) := by
  obtain ⟨address, haddress, hresolve, hlocation⟩ := hdenotes.exists_address
  obtain ⟨high, hhigh, hemit⟩ := exists_emit_eq_distance hkind hrecorded hmeasures haddress
  -- a distance that reaches the target is emitted, and without one the operand is refused
  have hreached : ∀ k, width.Reaches counter.next target k → node.emit counter symbols =
      .ok [high ||| (BitVec.ofInt width.bits k).setWidth 16] := by
    intro k hk
    rw [hemit, Address.distance_of_reaches hresolve hk]
    rfl
  have hmissed : (¬ ∃ k, width.Reaches counter.next target k) → node.emit counter symbols =
      .error (.fault ⟨.offsetOutOfRange (target - counter.next).toInt (.ofWidth .signed width),
        operand.location?⟩) := by
    intro hnone
    rw [hemit, Address.distance_of_not_reaches hresolve (not_exists.mp hnone), hlocation]
    rfl
  refine ⟨⟨?_, ?_⟩, ?_, hmissed⟩
  · rintro ⟨words, hwords⟩
    by_contra hnone
    rw [hmissed hnone] at hwords
    cases hwords
  · rintro ⟨k, hk⟩
    exact ⟨_, hreached k hk⟩
  · intro words k hwords hk
    rw [hreached k hk] at hwords
    -- the fixed bits are all above the field
    have hlow : (high ||| (BitVec.ofInt width.bits k).setWidth 16).setWidth width.bits =
        BitVec.ofInt width.bits k := by
      rw [BitVec.setWidth_or, hhigh, BitVec.zero_or, BitVec.setWidth_setWidth_of_le _ width.atMost,
        BitVec.setWidth_eq]
    refine ⟨_, (Except.ok.inj hwords).symm, hlow, ?_⟩
    rw [hlow, signExtend_ofInt hk.least hk.greatest, ofInt_eq_sub_iff.mpr hk.arrives,
      BitVec.add_comm, BitVec.sub_add_cancel]

/-- A load reaches over the end of memory, and its field is refused for a label that is too far. -/
theorem emit_distance_over_end :
    let label : Node := .leaf .labelReference ⟨.word, "A", ⟨1, 6, 6⟩⟩
    let load : Node := ⟨.instruction .ld none none, none, [.leaf (.register ⟨0#3⟩) ⟨.word, "R0",
      ⟨1, 3, 3⟩⟩, label]⟩
    let symbols := SymbolTable.ofList [("A", 1#16)]
    (∃ word : Word, load.emit ⟨0xFFFE#16, 0xFFFF#16⟩ symbols = .ok [word] ∧
      word.setWidth 9 = 2#9) ∧
    load.emit ⟨0x0101#16, 0x0102#16⟩ symbols =
      .error (.fault ⟨.offsetOutOfRange (-257) (.ofWidth .signed .distance),
        some ⟨1, 6, 6⟩⟩) := by
  intro label load symbols
  have hrecorded : load.RecordsOwnFormat := by
    intro mnemonic recorded flags? hkind
    cases hkind
  have hmeasures : Mnemonic.Measures .ld load.children label .distance :=
    .registerAddress _ _ (by decide) rfl
  have hdenotes : label.Denotes symbols 1#16 := .label rfl (by decide)
  constructor
  · -- from xFFFF on, two words lead over the end of memory to x0001
    have hreaches : Width.distance.Reaches 0xFFFF#16 1#16 2 := ⟨by decide, by decide, by decide⟩
    obtain ⟨hword, hlow, -⟩ :=
      emit_distance rfl hrecorded hmeasures ⟨0xFFFE#16, 0xFFFF#16⟩ hdenotes
    obtain ⟨words, hwords⟩ := hword.mpr ⟨2, hreaches⟩
    obtain ⟨word, rfl, hdistance, -⟩ := hlow words 2 hwords hreaches
    exact ⟨word, hwords, hdistance⟩
  · -- from x0102 back to x0001 it is one word more than the field reaches
    have hmissed : ¬ ∃ k, Width.distance.Reaches 0x0102#16 1#16 k := by
      rintro ⟨k, hleast, hgreatest, harrives⟩
      have hleast' : -256 ≤ k := hleast
      have hgreatest' : k < 256 := hgreatest
      have harrives' : (258 + k) % 65536 = 1 := harrives
      omega
    exact (emit_distance rfl hrecorded hmeasures ⟨0x0101#16, 0x0102#16⟩ hdenotes).2.2 hmissed

end Node

end LC3
