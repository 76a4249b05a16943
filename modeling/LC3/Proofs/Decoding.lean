import LC3.Proofs.Misfits
import LC3.Proofs.Slots

namespace LC3

/-!
# Reading instructions back

The word of an instruction holds its operands in slots that its format tells, and around them the
fixed bits of its mnemonic. So the operands can be read back from the word, and what is left without
them is the fixed bits.

* `Mnemonic.slots`, `Mnemonic.mode` — where the operands of a format are in a word.
* `Content.Holds` — what the bits of a slot stand for.
* `Mnemonic.free` — no slot of an instruction has fixed bits in it.
* `Mnemonic.Decodes` — a word that gives some operands back.
* `Node.decodes_of_emit` — the words of instructions give their operands back.
-/

/-! ### Formats that the same operands have -/

/-- A class of operands, with addresses taken for numbers. -/
private def Operand.plain : Operand → Operand
  | .address => .number
  | operand => operand

/-- The class of a node, with labels taken for numbers. -/
private def Node.Kind.plain? : Node.Kind → Option Operand
  | .register _ => some .register
  | .number _ | .labelReference => some .number
  | .string _ => some .string
  | .flags _ => some .flags
  | _ => none

/-- An operand of a class is of the plain class of it. -/
private theorem plain?_of_accepts {operand : Operand} {kind : Node.Kind}
    (h : operand.accepts kind) : kind.plain? = some operand.plain := by
  cases operand <;> cases kind <;> first | rfl | cases h

/-- Operands in a format are of the plain classes of the format. -/
private theorem map_plain_of_fits {format : Format} {nodes : List Node}
    (h : format.fits nodes) :
    nodes.map (·.kind.plain?) = format.operands.map fun operand => some operand.plain := by
  rw [Format.fits_iff_forall₂] at h
  generalize format.operands = operands at h
  induction h with
  | nil => rfl
  | cons hnode _ ih => rw [List.map_cons, List.map_cons, ih, plain?_of_accepts hnode]

/-! ### Slots of operands -/

/-- What the bits of a slot tell about an operand. -/
inductive Content where
  /-- The number of a register. -/
  | register
  /-- The condition of a branch. -/
  | flags
  /-- A number as it is written. -/
  | number (signedness : Signedness)
  /-- The distance from the next instruction to an address. -/
  | distance
deriving DecidableEq

/-- A slot for an operand. -/
structure OperandSlot extends Slot where
  content : Content
deriving DecidableEq

/-- The slot of a register. -/
def OperandSlot.register (low : Nat) : OperandSlot :=
  ⟨⟨low, 3⟩, .register⟩

/-- The slot of the condition of a branch. -/
def OperandSlot.flags : OperandSlot :=
  ⟨⟨9, 3⟩, .flags⟩

/-- The slot of a distance, at the low end of a word. -/
def OperandSlot.distance (bits : Nat) : OperandSlot :=
  ⟨⟨0, bits⟩, .distance⟩

/-- The slot of a number, at the low end of a word. -/
def OperandSlot.number (signedness : Signedness) (bits : Nat) : OperandSlot :=
  ⟨⟨0, bits⟩, .number signedness⟩

/-- Whether the bits of a slot give an operand of an instruction back. `next` is the address behind
    the instruction. -/
inductive Content.Holds {n : Nat} (next : Word) (symbols : SymbolTable) :
    Content → Node → BitVec n → Prop where
  | register {operand : Node} {bits : BitVec n} {register : Register}
    (hkind : operand.kind = .register register) (hnumber : bits.toNat = register.number.toNat) :
    Holds next symbols .register operand bits
  | flags {operand : Node} {bits : BitVec n} {flags : Flags}
    (hkind : operand.kind = .flags flags) (hflags : bits.toNat = flags.bits.toNat) :
    Holds next symbols .flags operand bits
  | number {operand : Node} {bits : BitVec n} {signedness : Signedness} {value : Word}
    (hkind : operand.kind = .number value) (hvalue : signedness.extend bits = value) :
    Holds next symbols (.number signedness) operand bits
  | distance {operand : Node} {bits : BitVec n} {target : Word}
    (hdenotes : operand.Denotes symbols target)
    (harrives : next + bits.signExtend 16 = target) :
    Holds next symbols .distance operand bits

namespace Mnemonic

/-- The width of a number behind two registers. -/
def numberWidth : Mnemonic → Width
  | add | and => .immediate
  | _ => .baseOffset

/-- The bit that tells a number behind two registers from a third register. -/
def numberMode : Mnemonic → Word
  | add | and => 0x20#16
  | _ => 0#16

/-- Where the operands of a format are in the word of an instruction. -/
def slots (mnemonic : Mnemonic) : Format → List OperandSlot
  | .register => [.register 6]
  | .address => [.distance 11]
  | .branch => [.flags, .distance 9]
  | .vector => [.number .unsigned 8]
  | .registers => [.register 9, .register 6]
  | .registerAddress => [.register 9, .distance 9]
  | .threeRegisters => [.register 9, .register 6, .register 0]
  | .registersNumber => [.register 9, .register 6, .number .signed mnemonic.numberWidth.bits]
  | .empty | .number | .string | .numberAddress => []

/-- The bits that a format adds to those of the mnemonic. -/
def mode (mnemonic : Mnemonic) : Format → Word
  | .registersNumber => mnemonic.numberMode
  | _ => 0#16

/-- The places of the operands, whatever is in them. -/
def places (mnemonic : Mnemonic) (format : Format) : List Slot :=
  (mnemonic.slots format).map OperandSlot.toSlot

/-- A word of an instruction that gives its operands back: each is read in its slot, the slots have
    no bit in common and no fixed bit in them, and without them and the bits of the format there is
    nothing but the fixed bits. -/
structure Decodes (mnemonic : Mnemonic) (format : Format) (next : Word) (symbols : SymbolTable)
    (operands : List Node) (word : Word) : Prop where
  holds : List.Forall₂
    (fun slot operand => slot.content.Holds next symbols operand (slot.read word))
    (mnemonic.slots format) operands
  apart : (mnemonic.places format).Pairwise Slot.Apart
  free : (mnemonic.word ||| mnemonic.mode format) &&& Slot.clearing (mnemonic.places format) = 0#16
  unset : mnemonic.word &&& mnemonic.mode format = 0#16
  set : word &&& mnemonic.mode format = mnemonic.mode format
  fixed : word &&& ~~~(Slot.clearing (mnemonic.places format) ||| mnemonic.mode format) =
    mnemonic.word

variable {mnemonic : Mnemonic} {format matched : Format}

/-! ### Where slots are -/

/-- The slots of operands are in the word. -/
theorem inside_of_mem_places : ∀ slot ∈ mnemonic.places format, slot.Inside := by
  cases format with
  | registersNumber => cases mnemonic <;> decide
  | _ => simp [places, slots, OperandSlot.register, OperandSlot.distance, OperandSlot.flags,
      OperandSlot.number, Slot.Inside]

/-- The slots of operands have no bit in common. -/
theorem pairwise_places : (mnemonic.places format).Pairwise Slot.Apart := by
  cases format with
  | registersNumber => cases mnemonic <;> decide
  | _ => simp [places, slots, OperandSlot.register, OperandSlot.distance, OperandSlot.flags,
      OperandSlot.number, Slot.Apart]

/-- **No fixed bits in slots.** The slots of the operands of an instruction are free for them, even
    if the operands are packed in a format of another instruction. -/
theorem free {nodes : List Node} (hformat : format ∈ mnemonic.formats) (hfits : format.fits nodes)
    (hmatched : matched.fits nodes) :
    (mnemonic.word ||| mnemonic.mode matched) &&& Slot.clearing (mnemonic.places matched) = 0#16 ∧
      mnemonic.word &&& mnemonic.mode matched = 0#16 := by
  -- only formats with one number or address can be mistaken for each other
  have hplain : format.operands.map (fun operand => some operand.plain) =
      matched.operands.map fun operand => some operand.plain :=
    (map_plain_of_fits hfits).symm.trans (map_plain_of_fits hmatched)
  have htable : ∀ format ∈ mnemonic.formats, ∀ matched ∈ Format.all,
      format.operands.map (fun operand => some operand.plain) =
        matched.operands.map (fun operand => some operand.plain) →
      (mnemonic.word ||| mnemonic.mode matched) &&& Slot.clearing (mnemonic.places matched) =
        0#16 ∧ mnemonic.word &&& mnemonic.mode matched = 0#16 := by
    cases mnemonic <;> decide
  have hall : matched ∈ Format.all := by cases matched <;> decide
  exact htable format hformat matched hall hplain

end Mnemonic

/-! ### Operands in their slots -/

/-- Bits for some operands in their slots. -/
inductive Fills (next : Word) (symbols : SymbolTable) :
    List OperandSlot → List Node → List Slot.Filled → Prop where
  | nil : Fills next symbols [] [] []
  | cons {slot : OperandSlot} {operand : Node} {bits : BitVec slot.bits}
    {slots : List OperandSlot} {operands : List Node} {fields : List Slot.Filled}
    (hbits : slot.content.Holds next symbols operand bits)
    (hrest : Fills next symbols slots operands fields) :
    Fills next symbols (slot :: slots) (operand :: operands) (⟨slot.toSlot, bits⟩ :: fields)

namespace Fills

variable {next : Word} {symbols : SymbolTable} {slots : List OperandSlot} {operands : List Node}
  {fields : List Slot.Filled}

/-- The slots that are filled are those of the operands. -/
theorem map_slot (h : Fills next symbols slots operands fields) :
    fields.map Slot.Filled.slot = slots.map OperandSlot.toSlot := by
  induction h with
  | nil => rfl
  | cons _ _ ih => rw [List.map_cons, List.map_cons, ih]

/-- Operands are read back from a word that has their bits in their slots. -/
theorem holds {word : Word} (h : Fills next symbols slots operands fields)
    (hread : ∀ filled ∈ fields, filled.slot.read word = filled.bits) :
    List.Forall₂ (fun slot operand => slot.content.Holds next symbols operand (slot.read word))
      slots operands := by
  induction h with
  | nil => exact .nil
  | cons hbits _ ih =>
    obtain ⟨hfirst, hrest⟩ := List.forall_mem_cons.mp hread
    refine .cons ?_ (ih hrest)
    dsimp only at hfirst
    rw [hfirst]
    exact hbits

end Fills

namespace Node

variable {operand : Node} {next : Word} {symbols : SymbolTable} {bit : Nat}

/-- The kind of a register operand. -/
theorem kind_of_register? {register : Register} (h : operand.register? = some register) :
    operand.kind = .register register := by
  unfold register? at h
  split at h
  · cases h; assumption
  · cases h

/-- The kind of a flags operand. -/
theorem kind_of_flags? {flags : Flags} (h : operand.flags? = some flags) :
    operand.kind = .flags flags := by
  unfold flags? at h
  split at h
  · cases h; assumption
  · cases h

/-- An operand denotes what its address stands for. -/
theorem denotes_of_address? {address : Address} {target : Word}
    (h : operand.address? = some address) (hresolve : address.resolve symbols = .ok target) :
    operand.Denotes symbols target := by
  unfold address? at h
  cases hkind : operand.kind with
  | number value =>
    rw [hkind] at h
    obtain rfl := Option.some.inj h
    rw [Address.resolve, Except.ok.injEq] at hresolve
    exact .number (hresolve ▸ hkind)
  | labelReference =>
    rw [hkind] at h
    obtain rfl := Option.some.inj h
    rw [Address.resolve] at hresolve
    split at hresolve
    case h_1 value hlookup =>
      rw [Except.ok.injEq] at hresolve
      exact .label hkind (hresolve ▸ hlookup)
    case h_2 => cases hresolve
  | _ =>
    rw [hkind] at h
    cases h

end Node

/-- A field that holds a value is extended to it. -/
theorem Field.word_of_ofWord {signedness : Signedness} {width : Width} {value : Word}
    {field : Field signedness width} (h : Field.ofWord signedness width value = .ok field) :
    field.word = value := by
  unfold Field.ofWord at h
  dsimp only at h
  split at h
  case isTrue hword =>
    obtain rfl := Except.ok.inj h
    exact hword
  case isFalse => cases h

/-- A number that is packed is that of the field. -/
theorem Literal.exists_bits_of_pack {literal : Literal} {signedness : Signedness} {width : Width}
    {packed : Word} (h : literal.pack signedness width = .ok packed) :
    ∃ bits : BitVec width.bits, packed = bits.setWidth 16 ∧
      signedness.extend bits = literal.value := by
  unfold pack at h
  split at h
  case h_1 field hfield =>
    obtain rfl := Except.ok.inj h
    exact ⟨field.bits, rfl, Field.word_of_ofWord hfield⟩
  case h_2 => cases h

/-- A number is packed exactly if it is in the range of the field. -/
theorem Literal.exists_pack_iff {literal : Literal} {signedness : Signedness} {width : Width} :
    (∃ packed, literal.pack signedness width = .ok packed) ↔
      signedness.least width.bits ≤ signedness.read literal.value ∧
        signedness.read literal.value ≤ signedness.greatest width.bits := by
  constructor
  · rintro ⟨packed, hpacked⟩
    by_contra hrange
    rw [pack_eq_error hrange] at hpacked
    cases hpacked
  · exact literal.exists_pack

/-- A distance that is packed leads to the address. -/
theorem Address.exists_bits_of_distance {address : Address} {width : Width} {next packed : Word}
    {symbols : SymbolTable} (h : address.distance width next symbols = .ok packed) :
    ∃ (target : Word) (bits : BitVec width.bits), address.resolve symbols = .ok target ∧
      packed = bits.setWidth 16 ∧ next + bits.signExtend 16 = target := by
  obtain ⟨target, hresolve, h⟩ := bind_eq_ok_iff.mp h
  split at h
  case h_1 field hfield =>
    obtain rfl := Except.ok.inj h
    have hword : field.bits.signExtend 16 = target - next := Field.word_of_ofWord hfield
    refine ⟨target, field.bits, hresolve, rfl, ?_⟩
    rw [hword, BitVec.add_comm, BitVec.sub_add_cancel]
  case h_2 => cases h

namespace Content

variable {operand : Node} {next packed : Word} {symbols : SymbolTable} {width : Width}

/-- A register is given back by its number. -/
theorem holds_register {register : Register} (h : operand.register? = some register) :
    Content.register.Holds next symbols operand register.number :=
  .register (Node.kind_of_register? h) rfl

/-- A number that is packed is given back. -/
theorem exists_holds_number {literal : Literal} {signedness : Signedness}
    (h : operand.literal? = some literal) (hpack : literal.pack signedness width = .ok packed) :
    ∃ bits : BitVec width.bits, packed = bits.setWidth 16 ∧
      (Content.number signedness).Holds next symbols operand bits := by
  obtain ⟨bits, hpacked, hvalue⟩ := Literal.exists_bits_of_pack hpack
  exact ⟨bits, hpacked, .number (Node.kind_of_literal? h) hvalue⟩

/-- An address is given back by its distance. -/
theorem exists_holds_distance {address : Address} (h : operand.address? = some address)
    (hpack : address.distance width next symbols = .ok packed) :
    ∃ bits : BitVec width.bits, packed = bits.setWidth 16 ∧
      Content.distance.Holds next symbols operand bits := by
  obtain ⟨target, bits, hresolve, hpacked, harrives⟩ := Address.exists_bits_of_distance hpack
  exact ⟨bits, hpacked, .distance (Node.denotes_of_address? h hresolve) harrives⟩

end Content

namespace Slot

/-- More fixed bits. -/
theorem or_pack (word fixed : Word) (fields : List Filled) :
    word ||| pack fixed fields = pack (word ||| fixed) fields := by
  induction fields generalizing fixed with
  | nil => rfl
  | cons filled fields ih => rw [pack_cons, pack_cons, ih, BitVec.or_assoc]

end Slot

/-- A list of nodes that is read as a vector is a number. -/
theorem Format.read?_vector_eq_some_iff {nodes : List Node} {operands : Arguments} :
    vector.read? nodes = some operands ↔
      ∃ node literal, nodes = [node] ∧ node.literal? = some literal ∧
        .vector literal = operands := by
  rcases nodes with _ | ⟨a, _ | ⟨b, nodes⟩⟩ <;> simp [read?, Option.bind_eq_some_iff]

/-- A list of nodes that is read as a number behind registers is one. -/
theorem Format.exists_of_read?_registersNumber {nodes : List Node} {operands : Arguments}
    (h : registersNumber.read? nodes = some operands) :
    ∃ first second node target source literal, nodes = [first, second, node] ∧
      node.literal? = some literal ∧ .registersNumber target source literal = operands := by
  rcases nodes with _ | ⟨a, _ | ⟨b, _ | ⟨c, _ | ⟨d, nodes⟩⟩⟩⟩ <;>
    simp only [read?, Option.bind_eq_bind, Option.bind_eq_some_iff, Option.pure_def,
      Option.some.injEq, reduceCtorEq] at h
  obtain ⟨target, -, source, -, literal, hliteral, rfl⟩ := h
  exact ⟨a, b, c, target, source, literal, rfl, hliteral, rfl⟩

namespace Mnemonic

variable {mnemonic : Mnemonic} {format : Format} {nodes : List Node} {operands : Arguments}
  {next packed : Word} {symbols : SymbolTable}

/-- A number behind two registers is packed below the bit that tells it from a register. -/
theorem exists_of_packNumber {literal : Literal} (h : mnemonic.packNumber literal = .ok packed) :
    ∃ number, literal.pack .signed mnemonic.numberWidth = .ok number ∧
      packed = mnemonic.numberMode ||| number := by
  cases mnemonic with
  | add | and =>
    obtain ⟨number, hnumber, h⟩ := bind_eq_ok_iff.mp h
    exact ⟨number, hnumber, (Except.ok.inj h).symm⟩
  | _ => exact ⟨packed, h, BitVec.zero_or.symm⟩

/-- A number that fits its field is packed. -/
theorem exists_packNumber {literal : Literal} {low : Word}
    (h : literal.pack .signed mnemonic.numberWidth = .ok low) :
    ∃ number, mnemonic.packNumber literal = .ok number := by
  cases mnemonic with
  | add | and => exact ⟨_, bind_eq_ok_iff.mpr ⟨low, h, rfl⟩⟩
  | _ => exact ⟨low, h⟩

/-- **Packing fills slots.** What is packed for some operands is the bits of their format and these
    operands in their slots. -/
theorem exists_fills (hread : format.read? nodes = some operands)
    (hpack : mnemonic.packOperands next symbols operands = .ok packed) :
    ∃ fields, Fills next symbols (mnemonic.slots format) nodes fields ∧
      packed = Slot.pack (mnemonic.mode format) fields := by
  unfold Format.read? at hread
  split at hread <;>
    simp only [Option.bind_eq_bind, Option.bind_eq_some_iff, Option.pure_def, Option.some.injEq,
      reduceCtorEq] at hread
  case h_1 =>
    subst hread
    obtain rfl := Except.ok.inj hpack
    exact ⟨[], .nil, rfl⟩
  case h_2 =>
    obtain ⟨register, hkind, rfl⟩ := hread
    obtain rfl := Except.ok.inj hpack
    exact ⟨_, .cons (Content.holds_register hkind) .nil, BitVec.zero_or.symm⟩
  case h_3 | h_4 =>
    -- formats of directives
    obtain ⟨_, _, rfl⟩ := hread
    cases hpack
  case h_8 =>
    obtain ⟨_, _, _, _, rfl⟩ := hread
    cases hpack
  case h_5 =>
    obtain ⟨address, haddress, rfl⟩ := hread
    obtain ⟨bits, rfl, hbits⟩ := Content.exists_holds_distance haddress hpack
    refine ⟨_, .cons hbits .nil, ?_⟩
    show _ = 0#16 ||| bits.setWidth 16 <<< 0
    rw [BitVec.zero_or, BitVec.shiftLeft_zero]
  case h_6 =>
    obtain ⟨flags, hflags, address, haddress, rfl⟩ := hread
    obtain ⟨distance, hpacked, h⟩ := bind_eq_ok_iff.mp hpack
    obtain rfl := Except.ok.inj h
    obtain ⟨bits, rfl, hbits⟩ := Content.exists_holds_distance haddress hpacked
    refine ⟨_, .cons (.flags (Node.kind_of_flags? hflags) rfl) (.cons hbits .nil), ?_⟩
    show _ = 0#16 ||| flags.pack ||| bits.setWidth 16 <<< 0
    rw [BitVec.zero_or, BitVec.shiftLeft_zero]
  case h_7 =>
    obtain ⟨literal, hliteral, rfl⟩ := hread
    obtain ⟨bits, rfl, hbits⟩ := Content.exists_holds_number hliteral hpack
    refine ⟨_, .cons hbits .nil, ?_⟩
    show _ = 0#16 ||| bits.setWidth 16 <<< 0
    rw [BitVec.zero_or, BitVec.shiftLeft_zero]
  case h_9 =>
    obtain ⟨first, hfirst, second, hsecond, rfl⟩ := hread
    obtain rfl := Except.ok.inj hpack
    refine ⟨_, .cons (Content.holds_register hfirst)
      (.cons (Content.holds_register hsecond) .nil), ?_⟩
    show _ = 0#16 ||| first.packAt 9 ||| second.packAt 6
    rw [BitVec.zero_or]
  case h_10 =>
    obtain ⟨register, hkind, address, haddress, rfl⟩ := hread
    obtain ⟨distance, hpacked, h⟩ := bind_eq_ok_iff.mp hpack
    obtain rfl := Except.ok.inj h
    obtain ⟨bits, rfl, hbits⟩ := Content.exists_holds_distance haddress hpacked
    refine ⟨_, .cons (Content.holds_register hkind) (.cons hbits .nil), ?_⟩
    show _ = 0#16 ||| register.packAt 9 ||| bits.setWidth 16 <<< 0
    rw [BitVec.zero_or, BitVec.shiftLeft_zero]
  case h_11 =>
    obtain ⟨first, hfirst, second, hsecond, third, hthird, rfl⟩ := hread
    obtain rfl := Except.ok.inj hpack
    refine ⟨_, .cons (Content.holds_register hfirst) (.cons (Content.holds_register hsecond)
      (.cons (Content.holds_register hthird) .nil)), ?_⟩
    show _ = 0#16 ||| first.packAt 9 ||| second.packAt 6 ||| third.packAt 0
    rw [BitVec.zero_or]
  case h_12 =>
    obtain ⟨first, hfirst, second, hsecond, literal, hliteral, rfl⟩ := hread
    obtain ⟨number, hpacked, h⟩ := bind_eq_ok_iff.mp hpack
    obtain rfl := Except.ok.inj h
    obtain ⟨low, hlow, rfl⟩ := exists_of_packNumber hpacked
    obtain ⟨bits, rfl, hbits⟩ := Content.exists_holds_number hliteral hlow
    refine ⟨_, .cons (Content.holds_register hfirst) (.cons (Content.holds_register hsecond)
      (.cons hbits .nil)), ?_⟩
    -- the bit of the mode is above the number, and it does not matter where it is put
    show _ = mnemonic.numberMode ||| first.packAt 9 ||| second.packAt 6 ||| bits.setWidth 16 <<< 0
    rw [BitVec.shiftLeft_zero, ← BitVec.or_assoc, BitVec.or_comm _ mnemonic.numberMode,
      ← BitVec.or_assoc]

/-- Fixed bits are left when a mode is taken away from them again, and slots that are free. -/
private theorem and_not_eq_self {word mode slots : Word} (hfree : (word ||| mode) &&& slots = 0#16)
    (hunset : word &&& mode = 0#16) : (word ||| mode) &&& ~~~(slots ||| mode) = word := by
  -- bit by bit: what is fixed is neither in a slot nor in the mode
  refine BitVec.eq_of_getLsbD_eq fun i hi => ?_
  have hslots : ((word ||| mode) &&& slots).getLsbD i = false := by
    rw [hfree]
    exact BitVec.getLsbD_zero
  have hmode : (word &&& mode).getLsbD i = false := by
    rw [hunset]
    exact BitVec.getLsbD_zero
  revert hslots hmode
  simp only [BitVec.getLsbD_and, BitVec.getLsbD_or, BitVec.getLsbD_not, hi, decide_true,
    Bool.true_and]
  cases word.getLsbD i <;> cases mode.getLsbD i <;> cases slots.getLsbD i <;> simp

/-- Fixed bits are in the word. -/
private theorem pack_and_fixed (word mode : Word) (fields : List Slot.Filled) :
    Slot.pack (word ||| mode) fields &&& mode = mode := by
  rw [BitVec.or_comm, ← Slot.or_pack]
  refine BitVec.eq_of_getLsbD_eq fun i hi => ?_
  rw [BitVec.getLsbD_and, BitVec.getLsbD_or]
  cases mode.getLsbD i <;> simp

/-- A word that is packed for some operands gives them back. -/
theorem decodes_of_fills {fields : List Slot.Filled}
    (hfills : Fills next symbols (mnemonic.slots format) nodes fields)
    (hfree : (mnemonic.word ||| mnemonic.mode format) &&& Slot.clearing (mnemonic.places format) =
      0#16)
    (hunset : mnemonic.word &&& mnemonic.mode format = 0#16) :
    mnemonic.Decodes format next symbols nodes
      (Slot.pack (mnemonic.word ||| mnemonic.mode format) fields) := by
  have hplaces : fields.map Slot.Filled.slot = mnemonic.places format := hfills.map_slot
  have hinside : ∀ filled ∈ fields, filled.slot.Inside := by
    rw [← List.forall_mem_map (P := Slot.Inside), hplaces]
    exact inside_of_mem_places
  -- the slots lie in the word, apart from each other, and are empty before they are filled
  have hapart : (fields.map Slot.Filled.slot).Pairwise Slot.Apart := by
    rw [hplaces]
    exact pairwise_places
  have hempty : ∀ filled ∈ fields,
      filled.slot.read (mnemonic.word ||| mnemonic.mode format) = 0 := by
    rw [← hplaces, Slot.and_clearing_eq_zero_iff, List.forall_mem_map] at hfree
    exact fun filled hfilled => Slot.read_eq_zero (hinside filled hfilled) (hfree filled hfilled)
  refine ⟨hfills.holds (Slot.read_pack hinside hapart hempty), pairwise_places, hfree, hunset,
    pack_and_fixed _ _ _, ?_⟩
  -- outside of the slots the word is what is fixed, and the mode is taken away from it
  have hrest := Slot.pack_and_not_clearing (mnemonic.word ||| mnemonic.mode format) fields
  rw [hplaces] at hrest
  rw [BitVec.not_or, ← BitVec.and_assoc, hrest, BitVec.and_assoc, ← BitVec.not_or,
    and_not_eq_self hfree hunset]

/-- **Ranges of numbers.** Operands with a number are packed exactly if the number is in the range
    of its slot. -/
theorem exists_packOperands_iff {slot : OperandSlot} {operand : Node} {signedness : Signedness}
    {value : Word} (hread : format.read? nodes = some operands)
    (hmem : (slot, operand) ∈ (mnemonic.slots format).zip nodes)
    (hcontent : slot.content = .number signedness) (hvalue : operand.kind = .number value) :
    (∃ packed, mnemonic.packOperands next symbols operands = .ok packed) ↔
      signedness.least slot.bits ≤ signedness.read value ∧
        signedness.read value ≤ signedness.greatest slot.bits := by
  have hslot : slot ∈ mnemonic.slots format := (List.of_mem_zip hmem).1
  cases format with
  | vector =>
    obtain ⟨node, literal, rfl, hliteral, rfl⟩ := Format.read?_vector_eq_some_iff.mp hread
    obtain ⟨rfl, rfl⟩ := Prod.mk.inj (List.mem_singleton.mp hmem)
    obtain rfl : value = literal.value := by
      simpa [hvalue] using Node.kind_of_literal? hliteral
    obtain rfl : .unsigned = signedness := by
      simpa [OperandSlot.number] using hcontent
    exact Literal.exists_pack_iff
  | registersNumber =>
    obtain ⟨first, second, node, target, source, literal, rfl, hliteral, rfl⟩ :=
      Format.exists_of_read?_registersNumber hread
    -- the number is behind the registers
    simp only [slots, List.zip_cons_cons, List.zip_nil_right, List.mem_cons, List.not_mem_nil,
      or_false, Prod.mk.injEq] at hmem
    obtain ⟨rfl, -⟩ | ⟨rfl, -⟩ | ⟨rfl, rfl⟩ := hmem
    case inl | inr.inl => cases hcontent
    obtain rfl : value = literal.value := by
      simpa [hvalue] using Node.kind_of_literal? hliteral
    obtain rfl : .signed = signedness := by
      simpa [OperandSlot.number] using hcontent
    show _ ↔ Signedness.signed.least mnemonic.numberWidth.bits ≤ _ ∧
      _ ≤ Signedness.signed.greatest mnemonic.numberWidth.bits
    rw [← Literal.exists_pack_iff]
    constructor
    · -- the instruction is packed only if its number is, and then the rest is too
      rintro ⟨packed, hpack⟩
      obtain ⟨number, hnumber, -⟩ := bind_eq_ok_iff.mp hpack
      obtain ⟨low, hlow, -⟩ := exists_of_packNumber hnumber
      exact ⟨low, hlow⟩
    · rintro ⟨low, hlow⟩
      obtain ⟨number, hnumber⟩ := exists_packNumber hlow
      exact ⟨_, bind_eq_ok_iff.mpr ⟨number, hnumber, rfl⟩⟩
  | empty | number | string | numberAddress => exact absurd hslot List.not_mem_nil
  | _ =>
    -- there are no numbers in the other formats
    simp only [slots, List.mem_cons, List.not_mem_nil, or_false] at hslot
    grind [OperandSlot.register, OperandSlot.flags, OperandSlot.distance]

end Mnemonic

namespace Node

variable {node : Node} {mnemonic : Mnemonic} {recorded? : Option Format} {flags? : Option Flags}
  {format : Format}

/-- The format that the operands of an instruction are packed in: the one that is recorded, if they
    have it, and else one of the instruction. -/
def packedFormat (node : Node) (recorded? : Option Format) (format : Format) : Format :=
  (recorded?.filter (·.fits node.children)).getD format

/-- The operands have the format that they are packed in. -/
theorem fits_packedFormat (hfits : format.fits node.children) :
    (node.packedFormat recorded? format).fits node.children := by
  unfold packedFormat
  cases hrecorded : recorded?.filter (·.fits node.children) with
  | none => exact hfits
  | some recorded => exact (Option.filter_eq_some_iff.mp hrecorded).2

/-- The operands of an instruction are read in this format. -/
theorem instructionArguments?_eq_read? (hformat : format ∈ mnemonic.formats)
    (hfits : format.fits node.children) :
    node.instructionArguments? mnemonic recorded? =
      (node.packedFormat recorded? format).read? node.children := by
  unfold packedFormat
  -- unless the recorded format fits the operands, they are read in their own
  have hother : ∀ recorded? : Option Format, (∀ recorded, recorded? = some recorded →
      ¬ recorded.fits node.children) →
      node.instructionArguments? mnemonic recorded? = format.read? node.children := by
    intro recorded? hmissed
    exact instructionArguments?_eq hformat hfits fun recorded hsome hfits' =>
      absurd hfits' (hmissed recorded hsome)
  cases recorded? with
  | none => exact hother none nofun
  | some recorded =>
    -- a recorded format that fits is the one that they are packed in
    by_cases hrecorded : recorded.fits node.children
    · -- what is recorded is tried first
      obtain ⟨operands, hread⟩ := Option.isSome_iff_exists.mp
        (show (recorded.read? node.children).isSome by rw [Format.isSome_read?, hrecorded])
      simp [instructionArguments?, Option.filter, hrecorded, hread]
    · rw [hother (some recorded) fun _ hsome => Option.some.inj hsome ▸ hrecorded]
      simp [Option.filter, hrecorded]

/-- **Instructions can be read back.** When an instruction with operands of one of its formats is
    encoded, be another format recorded or not, then it is one word. The operands are read from the
    slots of their format, which have no bit in common and no fixed bit in them, and without them
    the word is the fixed bits of its mnemonic. A number is accepted exactly if it is in the range
    of its slot. -/
theorem decodes_of_emit (hkind : node.kind = .instruction mnemonic recorded? flags?)
    (hformat : format ∈ mnemonic.formats) (hfits : format.fits node.children) (counter : Counter)
    (symbols : SymbolTable) :
    (∀ words, node.emit counter symbols = .ok words → ∃ word, words = [word] ∧
      mnemonic.Decodes (node.packedFormat recorded? format) counter.next symbols node.children
        word) ∧
    ∀ slot operand signedness value,
      (slot, operand) ∈ (mnemonic.slots (node.packedFormat recorded? format)).zip node.children →
      slot.content = .number signedness → operand.kind = .number value →
      ((∃ words, node.emit counter symbols = .ok words) ↔
        signedness.least slot.bits ≤ signedness.read value ∧
          signedness.read value ≤ signedness.greatest slot.bits) := by
  have hmatched : (node.packedFormat recorded? format).fits node.children :=
    fits_packedFormat hfits
  have harguments : node.instructionArguments? mnemonic recorded? =
      (node.packedFormat recorded? format).read? node.children :=
    instructionArguments?_eq_read? hformat hfits
  obtain ⟨operands, hread⟩ := Option.isSome_iff_exists.mp
    (show ((node.packedFormat recorded? format).read? node.children).isSome by
      rw [Format.isSome_read?, hmatched])
  have hemit := emit_eq_of_instructionArguments? hkind (harguments.trans hread) counter symbols
  -- the words are those of what is packed for the operands
  have hok : ∀ words, node.emit counter symbols = .ok words ↔
      ∃ packed, mnemonic.packOperands counter.next symbols operands = .ok packed ∧
        words = [mnemonic.word ||| packed] := by
    intro words
    rw [hemit, map_eq_ok_iff]
    constructor
    · rintro ⟨word, hword, rfl⟩
      obtain ⟨packed, hpacked, h⟩ := bind_eq_ok_iff.mp hword
      exact ⟨packed, hpacked, by rw [← Except.ok.inj h]⟩
    · rintro ⟨packed, hpacked, rfl⟩
      exact ⟨_, bind_eq_ok_iff.mpr ⟨packed, hpacked, rfl⟩, rfl⟩
  refine ⟨fun words hwords => ?_, fun slot operand signedness value hmem hcontent hvalue => ?_⟩
  · -- the fields that are packed fill the slots, which the fixed bits leave free
    obtain ⟨packed, hpacked, rfl⟩ := (hok words).mp hwords
    obtain ⟨fields, hfills, rfl⟩ := Mnemonic.exists_fills hread hpacked
    obtain ⟨hfree, hunset⟩ := Mnemonic.free hformat hfits hmatched
    rw [Slot.or_pack]
    exact ⟨_, rfl, Mnemonic.decodes_of_fills hfills hfree hunset⟩
  · -- the instruction is encoded exactly if its operands are packed
    rw [← Mnemonic.exists_packOperands_iff hread hmem hcontent hvalue]
    constructor
    · rintro ⟨words, hwords⟩
      obtain ⟨packed, hpacked, -⟩ := (hok words).mp hwords
      exact ⟨packed, hpacked⟩
    · rintro ⟨packed, hpacked⟩
      exact ⟨_, (hok _).mpr ⟨packed, hpacked, rfl⟩⟩

/-- The word of an addition gives a negative number back, and the same number is refused as a trap
    vector. -/
theorem decodes_of_emit_negative :
    let register (number : BitVec 3) : Node := ⟨.register ⟨number⟩, none, []⟩
    let number : Node := ⟨.number 0xFFFD#16, none, []⟩
    let addition : Node := ⟨.instruction .add none none, none, [register 1, register 6, number]⟩
    let trap : Node := ⟨.instruction .trap none none, none, [number]⟩
    addition.emit .start (.ofList []) = .ok [0x13BD#16] ∧
    Mnemonic.add.Decodes .registersNumber 0#16 (.ofList []) addition.children 0x13BD#16 ∧
    ¬ ∃ words, trap.emit .start (.ofList []) = .ok words := by
  -- the sum is decoded from its word, and the range of a vector is what the number misses
  intro register number addition trap
  have hadd : Format.registersNumber ∈ Mnemonic.add.formats := by decide
  have hemit : addition.emit .start (.ofList []) = .ok [0x13BD#16] := by
    decide
  have hkind : addition.kind = .instruction .add none none := rfl
  obtain ⟨word, hword, hdecodes⟩ :=
    (decodes_of_emit hkind hadd rfl .start (.ofList [])).1 _ hemit
  obtain rfl := List.singleton_inj.mp hword
  refine ⟨hemit, hdecodes, ?_⟩
  have hkind' : trap.kind = .instruction .trap none none := rfl
  have htrap := (decodes_of_emit hkind' (List.mem_singleton_self Format.vector) rfl .start
    (.ofList [])).2 (.number .unsigned 8) number .unsigned 0xFFFD#16 (List.mem_singleton_self _)
      rfl rfl
  rw [htrap]
  decide

end Node

end LC3
