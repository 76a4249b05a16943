import LC3.Proofs.Decoding

namespace LC3

/-!
# Words of different operands

Instructions of one mnemonic have the same word exactly if their operands come to the same in the
same format. So a machine can tell the formats of a mnemonic apart, with one exception: nothing in
the word of a jump tells a register from a distance.

* `Operand.Value`, `Format.values?` — what operands come to in a word.
* `Mnemonic.wordOf`, `Mnemonic.valuesIn` — the word of such values, and the values in a word.
* `SameJump` — the jumps that cannot be told apart.
* `Node.words_eq_iff` — which instructions have the same word.
* `Node.jumps_alike` — two jumps that do.
-/

/-! ### What operands come to -/

/-- What an operand of an instruction comes to. -/
inductive Operand.Value where
  | register (register : Register)
  | flags (flags : Flags)
  /-- A number as it is written. -/
  | number (value : Word)
  /-- The distance from the next instruction to an address. -/
  | distance (value : Word)
deriving DecidableEq

/-- The bits of a value in a slot of a width. -/
def Operand.Value.bits (n : Nat) : Operand.Value → BitVec n
  | .register ⟨index⟩ => index.setWidth n
  | .flags condition => condition.bits.setWidth n
  | .number value | .distance value => value.setWidth n

/-- What a node comes to as an operand of a class. `next` is the address behind the instruction. -/
def Operand.value? (next : Word) (symbols : SymbolTable) (node : Node) : Operand → Option Value
  | .register => node.register?.map .register
  | .flags => node.flags?.map .flags
  | .number => node.literal?.map fun literal => .number literal.value
  | .address => node.address?.bind fun address =>
    (address.resolve symbols).toOption.map fun target => .distance (target - next)
  | .string => none

/-- What nodes come to as the operands of a format. -/
def Format.values? (next : Word) (symbols : SymbolTable) (format : Format) (nodes : List Node) :
    Option (List Operand.Value) :=
  (format.operands.zip nodes).mapM fun pair => pair.1.value? next symbols pair.2

/-! ### Values in slots -/

/-- The flags of a condition field. -/
def Flags.ofBits (bits : BitVec 3) : Flags where
  negative := bits.getLsbD 2
  zero := bits.getLsbD 1
  positive := bits.getLsbD 0

/-- The bits of flags give them back. -/
theorem Flags.ofBits_bits (flags : Flags) : Flags.ofBits flags.bits = flags := by
  rcases flags with ⟨_ | _, _ | _, _ | _⟩ <;> rfl

/-- Bits are those of the flags that they stand for. -/
theorem Flags.bits_ofBits (bits : BitVec 3) : (Flags.ofBits bits).bits = bits := by
  revert bits
  decide

namespace Content

/-- The class of the operand that is in a slot. -/
def operand : Content → Operand
  | register => .register
  | flags => .flags
  | number _ => .number
  | distance => .address

/-- What the bits of a slot stand for. -/
def value {n : Nat} (bits : BitVec n) : Content → Operand.Value
  | register => .register ⟨bits.setWidth 3⟩
  | flags => .flags (.ofBits (bits.setWidth 3))
  | number signedness => .number (signedness.extend bits)
  | distance => .distance (bits.signExtend 16)

/-- Whether a slot of a width has no bits that its content does not need. -/
def Fits (n : Nat) : Content → Prop
  | register | flags => n ≤ 3
  | number _ | distance => n ≤ 16

instance (n : Nat) (content : Content) : Decidable (content.Fits n) := by
  cases content <;> exact inferInstanceAs (Decidable (n ≤ _))

variable {n : Nat} {bits : BitVec n} {content : Content} {next : Word} {symbols : SymbolTable}
  {operand : Node}

/-- Bits are narrowed to a number of three bits that they stand for. -/
private theorem setWidth_eq_of_toNat_eq {index : BitVec 3} (h : bits.toNat = index.toNat) :
    bits.setWidth 3 = index := by
  apply BitVec.eq_of_toNat_eq
  rw [BitVec.toNat_setWidth, h, Nat.mod_eq_of_lt index.isLt]

/-- The bits of an operand stand for what it comes to. -/
theorem value?_of_holds (h : content.Holds next symbols operand bits) :
    content.operand.value? next symbols operand = some (content.value bits) := by
  cases h with
  | register hkind hnumber =>
    simp only [Content.operand, Operand.value?, Node.register?, hkind, value,
      setWidth_eq_of_toNat_eq hnumber, Option.map_some]
  | flags hkind hflags =>
    simp only [Content.operand, Operand.value?, Node.flags?, hkind, value,
      setWidth_eq_of_toNat_eq hflags, Flags.ofBits_bits, Option.map_some]
  | number hkind hvalue =>
    simp only [Content.operand, Operand.value?, Node.literal?, hkind, value, hvalue,
      Option.map_some]
  | @distance _ _ target hdenotes harrives =>
    obtain ⟨address, haddress, hresolve, -⟩ := hdenotes.exists_address
    have hdistance : target - next = bits.signExtend 16 := by
      rw [← harrives, BitVec.add_comm, BitVec.add_sub_cancel]
    simp only [Content.operand, Operand.value?, haddress, Option.bind_some, hresolve,
      Except.toOption, Option.map_some, value, hdistance]

/-- Bits are narrowed back after they were extended. -/
private theorem setWidth_extend (signedness : Signedness) (h : n ≤ 16) (bits : BitVec n) :
    (signedness.extend bits).setWidth n = bits := by
  refine BitVec.eq_of_getLsbD_eq fun i hi => ?_
  have hword : i < 16 := by omega
  cases signedness <;>
    simp [Signedness.extend, BitVec.getLsbD_setWidth, BitVec.getLsbD_signExtend, hi, hword,
      -BitVec.getLsbD_eq_getElem]

/-- What the bits of a slot stand for has these bits. -/
theorem bits_value (h : content.Fits n) (bits : BitVec n) : (content.value bits).bits n = bits := by
  cases content with
  | register =>
    show (bits.setWidth 3).setWidth n = bits
    rw [BitVec.setWidth_setWidth_of_le bits h, BitVec.setWidth_eq]
  | flags =>
    show (Flags.ofBits (bits.setWidth 3)).bits.setWidth n = bits
    rw [Flags.bits_ofBits, BitVec.setWidth_setWidth_of_le bits h, BitVec.setWidth_eq]
  | number signedness => exact setWidth_extend signedness h bits
  | distance => exact setWidth_extend .signed h bits

end Content

/-! ### Values of words -/

namespace Slot

/-- What is read in a slot, in its place. -/
theorem word_read (slot : Slot) (word : Word) :
    Filled.word ⟨slot, slot.read word⟩ = word &&& slot.mask := by
  refine BitVec.eq_of_getLsbD_eq fun i hi => ?_
  simp only [Filled.word, mask, read, BitVec.getLsbD_and, BitVec.getLsbD_shiftLeft,
    BitVec.getLsbD_setWidth, BitVec.getLsbD_allOnes, BitVec.getLsbD_extractLsb']
  by_cases hlow : i < slot.low
  · simp [hlow]
  · rw [Nat.add_sub_of_le (Nat.le_of_not_lt hlow)]
    cases word.getLsbD i <;> simp [hlow]

/-- Slots that are packed as they are read are the bits of the word in them. -/
theorem pack_read (slots : List Slot) (fixed word : Word) :
    pack fixed (slots.map fun slot => ⟨slot, slot.read word⟩) =
      fixed ||| (word &&& clearing slots) := by
  induction slots generalizing fixed with
  | nil => simp [pack, clearing]
  | cons slot slots ih =>
    rw [List.map_cons, pack_cons, ih, word_read, clearing_cons, BitVec.and_or_distrib_left,
      BitVec.or_assoc]

end Slot

namespace Mnemonic

variable {mnemonic : Mnemonic} {format other : Format} {next word : Word} {symbols : SymbolTable}
  {nodes : List Node}

/-- The word of an instruction whose operands come to some values in a format. -/
def wordOf (mnemonic : Mnemonic) (format : Format) (values : List Operand.Value) : Word :=
  Slot.pack (mnemonic.word ||| mnemonic.mode format)
    (List.zipWith (fun slot value => ⟨slot.toSlot, value.bits slot.bits⟩) (mnemonic.slots format)
      values)

/-- What the slots of a format have in them in a word. -/
def valuesIn (mnemonic : Mnemonic) (format : Format) (word : Word) : List Operand.Value :=
  (mnemonic.slots format).map fun slot => slot.content.value (slot.read word)

/-- The slots of a format are wide enough for what is in them, and not wider. -/
theorem fits_of_mem_slots : ∀ slot ∈ mnemonic.slots format, slot.content.Fits slot.bits := by
  cases format with
  | registersNumber => cases mnemonic <;> decide
  | _ => simp [slots, OperandSlot.register, OperandSlot.distance, OperandSlot.flags,
      OperandSlot.number, Content.Fits]

/-- The slots of a format are those of its operands. -/
theorem map_operand_slots (hformat : format ∈ mnemonic.formats) :
    (mnemonic.slots format).map (·.content.operand) = format.operands := by
  revert format
  cases mnemonic <;> decide

/-- **Values are read back.** What the operands of an instruction come to is in its word. -/
theorem values?_of_decodes (hformat : format ∈ mnemonic.formats)
    (h : mnemonic.Decodes format next symbols nodes word) :
    format.values? next symbols nodes = some (mnemonic.valuesIn format word) := by
  obtain ⟨hholds, -⟩ := h
  unfold Format.values? valuesIn
  rw [← map_operand_slots hformat]
  generalize mnemonic.slots format = slots at hholds ⊢
  induction hholds with
  | nil => rfl
  | cons hslot _ ih =>
    rw [List.map_cons, List.zip_cons_cons, List.mapM_cons, Content.value?_of_holds hslot, ih]
    rfl

/-- **Words are made of values.** An instruction has the word of what its operands come to. -/
theorem wordOf_valuesIn (h : mnemonic.Decodes format next symbols nodes word) :
    mnemonic.wordOf format (mnemonic.valuesIn format word) = word := by
  -- the fields that values are put in are those that the word has in the slots
  have hfields : List.zipWith (fun slot value => (⟨slot.toSlot, value.bits slot.bits⟩ : Slot.Filled))
      (mnemonic.slots format) (mnemonic.valuesIn format word) =
      (mnemonic.places format).map fun slot => ⟨slot, slot.read word⟩ := by
    rw [valuesIn, places, List.zipWith_map_right, List.zipWith_self, List.map_map]
    refine List.map_congr_left fun slot hslot => ?_
    rw [Content.bits_value (fits_of_mem_slots slot hslot)]
    rfl
  rw [wordOf, hfields, Slot.pack_read]
  have hset := h.set
  have hfixed := h.fixed
  generalize mnemonic.mode format = mode at hset hfixed ⊢
  generalize Slot.clearing (mnemonic.places format) = slots at hfixed ⊢
  -- every bit is of the mode, of a slot or fixed
  refine BitVec.eq_of_getLsbD_eq fun i hi => ?_
  have hset' := congrArg (·.getLsbD i) hset
  have hfixed' := congrArg (·.getLsbD i) hfixed
  simp only [BitVec.getLsbD_and, BitVec.getLsbD_or, BitVec.getLsbD_not, hi, decide_true,
    Bool.true_and] at hset' hfixed' ⊢
  rw [← hfixed']
  revert hset'
  cases word.getLsbD i <;> cases mode.getLsbD i <;> cases slots.getLsbD i <;> simp

/-! ### Formats of a word -/

/-- A word does not have its operands in two formats, if one sets a bit that the other leaves to
    the mnemonic. -/
theorem Decodes.false_of_decodes {next' : Word} {symbols' : SymbolTable} {nodes' : List Node}
    (h : mnemonic.Decodes format next symbols nodes word)
    (h' : mnemonic.Decodes other next' symbols' nodes' word)
    (hmode : mnemonic.mode other &&&
      ~~~(Slot.clearing (mnemonic.places format) ||| mnemonic.mode format) ≠ 0#16) : False := by
  apply hmode
  rw [← h'.set, BitVec.and_comm word, BitVec.and_assoc, h.fixed, BitVec.and_comm, h'.unset]

end Mnemonic

/-- The values of a jump to a register and of one over a distance that have the same word: the
    distance is 64 times the number of the register. -/
inductive SameJump : List Operand.Value → List Operand.Value → Prop where
  | register (register : Register) : SameJump [.register register] [.distance (register.packAt 6)]
  | distance (register : Register) : SameJump [.distance (register.packAt 6)] [.register register]

/-- It does not matter which of two jumps is over the distance. -/
theorem sameJump_comm {values values' : List Operand.Value} :
    SameJump values values' ↔ SameJump values' values := by
  constructor <;>
    · rintro (register | register)
      · exact .distance register
      · exact .register register

/-- The word of a jump to a register, taken for one over a distance. -/
private theorem valuesIn_wordOf_register (register : Register) :
    Mnemonic.jmp.valuesIn .address (Mnemonic.jmp.wordOf .register [.register register]) =
      [.distance (register.packAt 6)] := by
  obtain ⟨index⟩ := register
  revert index
  decide

/-- The number of a register is where the distance of a jump has a multiple of 64. -/
private theorem wordOf_packAt (register : Register) :
    Mnemonic.jmp.wordOf .address [.distance (register.packAt 6)] =
      Mnemonic.jmp.wordOf .register [.register register] := by
  obtain ⟨index⟩ := register
  revert index
  decide

/-- A jump to a register and one over a distance have the same word exactly if they are alike. -/
theorem Mnemonic.eq_iff_sameJump {word word' : Word}
    (hword : wordOf jmp .register (valuesIn jmp .register word) = word)
    (hword' : wordOf jmp .address (valuesIn jmp .address word') = word') :
    word = word' ↔ SameJump (valuesIn jmp .register word) (valuesIn jmp .address word') := by
  obtain ⟨register, hregister⟩ : ∃ register : Register,
      valuesIn jmp .register word = [.register register] := ⟨_, rfl⟩
  rw [hregister] at hword ⊢
  constructor
  · -- the word has the register in its slot, and the distance in the same bits
    rintro rfl
    rw [← hword, valuesIn_wordOf_register]
    exact .register register
  · intro h
    generalize valuesIn jmp .address word' = values at h hword'
    cases h
    rw [← hword, ← hword', wordOf_packAt]

/-- Jumps of one format are not alike in this sense. -/
theorem Mnemonic.not_sameJump {format : Format} {word word' : Word}
    (hformat : format ∈ jmp.formats) :
    ¬ SameJump (valuesIn jmp format word) (valuesIn jmp format word') := by
  have hregisters : ∀ register register', ¬ SameJump [.register register] [.register register'] :=
    fun _ _ => nofun
  have hdistances : ∀ distance distance', ¬ SameJump [.distance distance] [.distance distance'] :=
    fun _ _ => nofun
  simp only [formats, List.mem_cons, List.not_mem_nil, or_false] at hformat
  rcases hformat with rfl | rfl
  · exact hregisters _ _
  · exact hdistances _ _

/-- Of two formats of a mnemonic one sets a bit that is fixed in the other, unless it is a jump. -/
theorem Mnemonic.mode_or_mode {mnemonic : Mnemonic} {format format' : Format}
    (hjump : mnemonic ≠ .jmp) (hformat : format ∈ mnemonic.formats)
    (hformat' : format' ∈ mnemonic.formats) (hne : format ≠ format') :
    mnemonic.mode format' &&&
        ~~~(Slot.clearing (mnemonic.places format) ||| mnemonic.mode format) ≠ 0#16 ∨
      mnemonic.mode format &&&
        ~~~(Slot.clearing (mnemonic.places format') ||| mnemonic.mode format') ≠ 0#16 := by
  -- the formats of each mnemonic are few enough to be gone through
  have htable : ∀ format ∈ mnemonic.formats, ∀ format' ∈ mnemonic.formats, format ≠ format' →
      mnemonic.mode format' &&&
          ~~~(Slot.clearing (mnemonic.places format) ||| mnemonic.mode format) ≠ 0#16 ∨
        mnemonic.mode format &&&
          ~~~(Slot.clearing (mnemonic.places format') ||| mnemonic.mode format') ≠ 0#16 := by
    cases mnemonic with
    | jmp => exact absurd rfl hjump
    | _ => decide
  exact htable format hformat format' hformat' hne

namespace Node

/-- An instruction that is encoded in one of its formats. -/
structure EncodesIn (node : Node) (mnemonic : Mnemonic) (format : Format) (counter : Counter)
    (symbols : SymbolTable) (words : List Word) : Prop where
  reads : ∃ recorded? flags?, node.kind = .instruction mnemonic recorded? flags? ∧
    (node.instructionArguments? mnemonic recorded?).map Arguments.format = some format
  own : format ∈ mnemonic.formats
  emits : node.emit counter symbols = .ok words

variable {node other : Node} {mnemonic : Mnemonic} {format format' : Format}
  {counter counter' : Counter} {symbols symbols' : SymbolTable} {words words' : List Word}

/-- The operands of an instruction are read in the format that they have. -/
theorem read?_format_of_instructionArguments? {recorded? : Option Format} {operands : Arguments}
    (h : node.instructionArguments? mnemonic recorded? = some operands) :
    operands.format.read? node.children = some operands := by
  have hread : ∃ format : Format, format.read? node.children = some operands := by
    -- a recorded format that fits is read first, and else those of the instruction
    unfold instructionArguments? at h
    split at h
    case h_1 hrecorded =>
      obtain rfl := Option.some.inj h
      obtain ⟨format, -, hread⟩ := Option.bind_eq_some_iff.mp hrecorded
      exact ⟨format, hread⟩
    case h_2 =>
      obtain ⟨format, -, hread⟩ := exists_read?_of_readFirst? h
      exact ⟨format, hread⟩
  obtain ⟨format, hread⟩ := hread
  rw [(Format.read?_spec hread).1]
  exact hread

/-- The word of an instruction gives its operands back. -/
theorem EncodesIn.exists_decodes (h : node.EncodesIn mnemonic format counter symbols words) :
    ∃ word, words = [word] ∧
      mnemonic.Decodes format counter.next symbols node.children word := by
  obtain ⟨⟨recorded?, flags?, hkind, hreads⟩, hown, hemit⟩ := h
  obtain ⟨operands, harguments, rfl⟩ := Option.map_eq_some_iff.mp hreads
  have hread : operands.format.read? node.children = some operands :=
    read?_format_of_instructionArguments? harguments
  have hfits : operands.format.fits node.children := by
    rw [← Format.isSome_read?, hread]
    rfl
  rw [emit_eq_of_instructionArguments? hkind harguments, map_eq_ok_iff] at hemit
  obtain ⟨word, hword, rfl⟩ := hemit
  obtain ⟨packed, hpacked, h⟩ := bind_eq_ok_iff.mp hword
  obtain rfl := Except.ok.inj h
  obtain ⟨fields, hfills, rfl⟩ := Mnemonic.exists_fills hread hpacked
  obtain ⟨hfree, hunset⟩ := Mnemonic.free hown hfits hfits
  rw [Slot.or_pack]
  exact ⟨_, rfl, Mnemonic.decodes_of_fills hfills hfree hunset⟩

/-- **Different operands, different words.** Two instructions of one mnemonic that are encoded in
    formats of it, each at its counter and with its symbols, have the same word exactly if their
    operands come to the same in the same format, or if they are a jump to a register and one over
    64 times the number of that register. -/
theorem words_eq_iff (h : node.EncodesIn mnemonic format counter symbols words)
    (h' : other.EncodesIn mnemonic format' counter' symbols' words') :
    ∃ values values', format.values? counter.next symbols node.children = some values ∧
      format'.values? counter'.next symbols' other.children = some values' ∧
      (words = words' ↔
        (format = format' ∧ values = values') ∨ (mnemonic = .jmp ∧ SameJump values values')) := by
  obtain ⟨word, rfl, hdecodes⟩ := h.exists_decodes
  obtain ⟨word', rfl, hdecodes'⟩ := h'.exists_decodes
  have hword := Mnemonic.wordOf_valuesIn hdecodes
  have hword' := Mnemonic.wordOf_valuesIn hdecodes'
  refine ⟨_, _, Mnemonic.values?_of_decodes h.own hdecodes,
    Mnemonic.values?_of_decodes h'.own hdecodes', ?_⟩
  rw [List.singleton_inj]
  -- in one format the words differ exactly if what is in the slots does
  by_cases hformat : format = format'
  · subst hformat
    constructor
    · rintro rfl
      exact .inl ⟨rfl, rfl⟩
    · rintro (⟨-, hvalues⟩ | ⟨rfl, hjump⟩)
      · rw [← hword, hvalues, hword']
      · exact absurd hjump (Mnemonic.not_sameJump h.own)
  simp only [hformat, false_and, false_or]
  by_cases hjmp : mnemonic = .jmp
  · subst hjmp
    simp only [true_and]
    have hown := h.own
    have hown' := h'.own
    simp only [Mnemonic.formats, List.mem_cons, List.not_mem_nil, or_false] at hown hown'
    -- one is to a register, the other over a distance
    rcases hown with rfl | rfl <;> rcases hown' with rfl | rfl
    · exact absurd rfl hformat
    · exact Mnemonic.eq_iff_sameJump hword hword'
    · rw [eq_comm, Mnemonic.eq_iff_sameJump hword' hword, sameJump_comm]
    · exact absurd rfl hformat
  · -- a bit that one format fixes tells the words of other instructions apart
    simp only [hjmp, false_and, iff_false]
    rintro rfl
    rcases Mnemonic.mode_or_mode hjmp h.own h'.own hformat with hmode | hmode
    · exact hdecodes.false_of_decodes hdecodes' hmode
    · exact hdecodes'.false_of_decodes hdecodes hmode

/-- Additions of a register and of a number that have the same bits in their last three have
    different words. -/
theorem words_eq_iff_additions :
    let register (index : BitVec 3) : Node := ⟨.register ⟨index⟩, none, []⟩
    let number (value : Word) : Node := ⟨.number value, none, []⟩
    let sum : Node := ⟨.instruction .add none none, none, [register 1, register 2, register 3]⟩
    let increment : Node :=
      ⟨.instruction .add none none, none, [register 1, register 2, number 3#16]⟩
    sum.EncodesIn .add .threeRegisters .start (.ofList []) [0x1283#16] ∧
      increment.EncodesIn .add .registersNumber .start (.ofList []) [0x12A3#16] ∧
      [0x1283#16] ≠ [0x12A3#16] := by
  intro register number sum increment
  -- both sums are encoded in formats of their own, so the words could only be the same of jumps
  have hsum : sum.EncodesIn .add .threeRegisters .start (.ofList []) [0x1283#16] :=
    ⟨⟨none, none, rfl, by decide⟩, by decide, by decide⟩
  have hincrement : increment.EncodesIn .add .registersNumber .start (.ofList []) [0x12A3#16] :=
    ⟨⟨none, none, rfl, by decide⟩, by decide, by decide⟩
  obtain ⟨values, values', -, -, hsame⟩ := words_eq_iff hsum hincrement
  refine ⟨hsum, hincrement, fun hwords => ?_⟩
  rcases hsame.mp hwords with ⟨hformat, -⟩ | ⟨hjump, -⟩
  · cases hformat
  · cases hjump

/-- A jump to a register has the word of a jump over a distance. And a format of another
    instruction, if it is recorded, makes the words of different operands the same. -/
theorem jumps_alike :
    let register (index : BitVec 3) : Node := ⟨.register ⟨index⟩, none, []⟩
    let number (value : Word) : Node := ⟨.number value, none, []⟩
    let jump (operand : Node) : Node := ⟨.instruction .jmp none none, none, [operand]⟩
    let negation (index : BitVec 3) : Node :=
      ⟨.instruction .not (some .threeRegisters) none, none,
        [register 0, register 0, register index]⟩
    ((jump (register 1)).EncodesIn .jmp .register .start (.ofList []) [0xC040#16] ∧
      (jump (number 0x40#16)).EncodesIn .jmp .address .start (.ofList []) [0xC040#16]) ∧
    (negation 1).emit .start (.ofList []) = .ok [0x903F#16] ∧
    (negation 2).emit .start (.ofList []) = .ok [0x903F#16] := by
  intro register number jump negation
  refine ⟨⟨⟨⟨none, none, rfl, ?_⟩, ?_, ?_⟩, ⟨none, none, rfl, ?_⟩, ?_, ?_⟩, ?_, ?_⟩ <;> decide

end Node

end LC3
