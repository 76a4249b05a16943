import LC3.Word
import Mathlib.Tactic.Common

namespace LC3

/-!
# Slots of a word

An instruction word is made of fixed bits and of slots, which hold the operands. What is put in a
slot is read back from the word, if the slot lies apart from the others and none of the fixed bits
is in it.

* `Slot` — a place in a word, with `Slot.read`, `Slot.mask` and `Slot.Apart`.
* `Slot.Filled`, `Slot.pack` — slots with bits in them, and the word that they make.
* `Slot.read_pack` — each slot holds what was put in it.
* `Slot.pack_and_not_clearing` — without its slots a word is its fixed bits.
-/

/-- A place in a word: a number of its bits, from a lowest one on. -/
structure Slot where
  low : Nat
  bits : Nat
deriving DecidableEq

namespace Slot

/-- The bits of a word in a slot. -/
def read (slot : Slot) (word : Word) : BitVec slot.bits :=
  word.extractLsb' slot.low slot.bits

/-- The word with all bits of a slot set, and no others. -/
def mask (slot : Slot) : Word :=
  (BitVec.allOnes slot.bits).setWidth 16 <<< slot.low

/-- Whether a slot lies within a word. -/
def Inside (slot : Slot) : Prop :=
  slot.low + slot.bits ≤ 16

/-- Whether two slots have no bit in common. -/
def Apart (slot other : Slot) : Prop :=
  slot.low + slot.bits ≤ other.low ∨ other.low + other.bits ≤ slot.low

instance (slot : Slot) : Decidable slot.Inside :=
  inferInstanceAs (Decidable (_ ≤ _))

instance (slot other : Slot) : Decidable (slot.Apart other) :=
  inferInstanceAs (Decidable (_ ∨ _))

/-- A slot with the bits in it. -/
structure Filled where
  slot : Slot
  bits : BitVec slot.bits

/-- The bits of a slot in their place. -/
def Filled.word (filled : Filled) : Word :=
  filled.bits.setWidth 16 <<< filled.slot.low

/-- Fixed bits together with what is in some slots. -/
def pack (fixed : Word) (fields : List Filled) : Word :=
  fields.foldl (fun word filled => word ||| filled.word) fixed

/-- The bits of some slots, all set. -/
def clearing (slots : List Slot) : Word :=
  slots.foldr (fun slot word => slot.mask ||| word) 0#16

/-- Packing one field more is packing the others on top of it. -/
@[simp] theorem pack_cons (fixed : Word) (filled : Filled) (fields : List Filled) :
    pack fixed (filled :: fields) = pack (fixed ||| filled.word) fields := rfl

/-- Clearing one slot more is clearing it and the others. -/
@[simp] theorem clearing_cons (slot : Slot) (slots : List Slot) :
    clearing (slot :: slots) = slot.mask ||| clearing slots := rfl

variable {slot : Slot} {filled : Filled} {fields : List Filled} {fixed : Word}

/-! ### Single slots -/

/-- A slot of two words put together holds what both have there. -/
theorem read_or (first second : Word) :
    slot.read (first ||| second) = slot.read first ||| slot.read second :=
  BitVec.extractLsb'_or

/-- Bits in their place are read where they stand. -/
theorem read_word (h : filled.slot.Inside) : filled.slot.read filled.word = filled.bits := by
  unfold Inside at h
  refine BitVec.eq_of_getLsbD_eq fun i hi => ?_
  have hword : filled.slot.low + i < 16 := by omega
  simp [read, Filled.word, hi, hword]

/-- And nowhere else. -/
theorem read_word_of_apart (h : slot.Apart filled.slot) : slot.read filled.word = 0 := by
  unfold Apart at h
  refine BitVec.eq_of_getLsbD_eq fun i hi => ?_
  simp only [read, Filled.word, BitVec.getLsbD_extractLsb', BitVec.getLsbD_shiftLeft,
    BitVec.getLsbD_setWidth]
  rcases h with hbelow | habove
  · have hlow : slot.low + i < filled.slot.low := by omega
    simp [hlow]
  · have hbits : filled.bits.getLsbD (slot.low + i - filled.slot.low) = false :=
      BitVec.getLsbD_of_ge _ _ (by omega)
    simp [hbits]

/-- Bits in their place are among those of the mask. -/
theorem word_and_not_mask (filled : Filled) : filled.word &&& ~~~filled.slot.mask = 0#16 := by
  refine BitVec.eq_of_getLsbD_eq fun i hi => ?_
  simp only [Filled.word, mask, BitVec.getLsbD_and, BitVec.getLsbD_not, BitVec.getLsbD_shiftLeft,
    BitVec.getLsbD_setWidth, BitVec.getLsbD_allOnes, BitVec.getLsbD_zero]
  by_cases hbits : i - filled.slot.low < filled.slot.bits
  · cases filled.bits.getLsbD (i - filled.slot.low) <;> simp [hi, hbits]
  · simp [BitVec.getLsbD_of_ge filled.bits _ (Nat.le_of_not_lt hbits)]

/-- A word with no bit of the mask has nothing in the slot. -/
theorem read_eq_zero (hinside : slot.Inside) (h : fixed &&& slot.mask = 0#16) :
    slot.read fixed = 0 := by
  unfold Inside at hinside
  refine BitVec.eq_of_getLsbD_eq fun i hi => ?_
  have hword : slot.low + i < 16 := by omega
  have hmask : slot.mask.getLsbD (slot.low + i) = true := by
    simp [mask, hi, hword]
  have hbit : (fixed &&& slot.mask).getLsbD (slot.low + i) = false := by
    rw [h]
    exact BitVec.getLsbD_zero
  rw [BitVec.getLsbD_and, hmask, Bool.and_true] at hbit
  simp [read, hi, hbit]

/-! ### All slots of a word -/

/-- A slot apart from all others holds what the fixed bits have there. -/
theorem read_pack_of_apart (h : ∀ filled ∈ fields, slot.Apart filled.slot) (fixed : Word) :
    slot.read (pack fixed fields) = slot.read fixed := by
  induction fields generalizing fixed with
  | nil => rfl
  | cons filled fields ih =>
    obtain ⟨hfilled, hfields⟩ := List.forall_mem_cons.mp h
    rw [pack_cons, ih hfields, read_or, read_word_of_apart hfilled]
    exact BitVec.or_zero

/-- The fixed bits leave all slots free if they leave each one free. -/
theorem and_clearing_eq_zero_iff {slots : List Slot} :
    fixed &&& clearing slots = 0#16 ↔ ∀ slot ∈ slots, fixed &&& slot.mask = 0#16 := by
  induction slots with
  | nil => simp [clearing]
  | cons slot slots ih =>
    rw [List.forall_mem_cons, ← ih, clearing_cons, BitVec.and_or_distrib_left,
      BitVec.or_eq_zero_iff]

/-- **Slots hold what is put in them**, if they lie apart and the fixed bits leave them free. -/
theorem read_pack (hinside : ∀ filled ∈ fields, filled.slot.Inside)
    (hapart : (fields.map Filled.slot).Pairwise Apart)
    (hfixed : ∀ filled ∈ fields, filled.slot.read fixed = 0) :
    ∀ filled ∈ fields, filled.slot.read (pack fixed fields) = filled.bits := by
  induction fields generalizing fixed with
  | nil => exact List.forall_mem_nil _
  | cons first fields ih =>
    obtain ⟨hfirst, hfields⟩ := List.forall_mem_cons.mp hinside
    obtain ⟨hfree, hfree'⟩ := List.forall_mem_cons.mp hfixed
    rw [List.map_cons, List.pairwise_cons, List.forall_mem_map] at hapart
    rw [pack_cons]
    refine List.forall_mem_cons.mpr ⟨?_, ih hfields hapart.2 fun filled hfilled => ?_⟩
    · -- the first field is put in its free slot, and nothing is put there behind it
      rw [read_pack_of_apart hapart.1, read_or, hfree, read_word hfirst]
      exact BitVec.zero_or
    · -- the slots behind the first one are still free
      rw [read_or, hfree' filled hfilled, read_word_of_apart (hapart.1 filled hfilled).symm]
      exact BitVec.or_zero

/-- **Without its slots a word is its fixed bits**, less those that are in one of the slots. -/
theorem pack_and_not_clearing (fixed : Word) (fields : List Filled) :
    pack fixed fields &&& ~~~clearing (fields.map Filled.slot) =
      fixed &&& ~~~clearing (fields.map Filled.slot) := by
  induction fields generalizing fixed with
  | nil => rfl
  | cons filled fields ih =>
    -- what is put in the first slot is cleared with it
    have hcleared : filled.word &&& ~~~clearing (fields.map Filled.slot) &&& ~~~filled.slot.mask =
        0#16 := by
      rw [BitVec.and_assoc, BitVec.and_comm (~~~clearing _), ← BitVec.and_assoc,
        word_and_not_mask, BitVec.zero_and]
    rw [List.map_cons, pack_cons, clearing_cons, BitVec.not_or,
      BitVec.and_comm (~~~filled.slot.mask), ← BitVec.and_assoc, ih, BitVec.and_or_distrib_right,
      BitVec.and_or_distrib_right, hcleared, BitVec.or_zero, BitVec.and_assoc]

end Slot

end LC3
