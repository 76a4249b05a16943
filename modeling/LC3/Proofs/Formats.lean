import LC3.Encoding
import Mathlib.Tactic.Common

namespace LC3

/-!
# Which format an instruction is encoded in

An instruction accepts one or two formats, and no list of operands has both. So the operands of an
instruction do not depend on whether its format has been recorded.

* `Mnemonic.fits_unique` — a list of operands has at most one format of a mnemonic.
* `Node.instructionArguments?_eq` — the operands of an instruction, for any format of it that they
  have.
-/

/-- No register is accepted as a number or an address. -/
theorem Operand.accepts_register_eq_false {operand : Operand} {kind : Node.Kind}
    (hoperand : operand = .number ∨ operand = .address) (h : operand.accepts kind) :
    Operand.register.accepts kind = false := by
  cases kind with
  | register => rcases hoperand with rfl | rfl <;> cases h
  | _ => rfl

/-- **Formats of a mnemonic exclude each other.** -/
theorem Mnemonic.fits_unique {mnemonic : Mnemonic} {first second : Format} {nodes : List Node}
    (hfirst : first ∈ mnemonic.formats) (hsecond : second ∈ mnemonic.formats)
    (hfits : first.fits nodes) (hfits' : second.fits nodes) : first = second := by
  -- the two formats of `ADD` and `AND` differ in the third operand, those of `JMP` in the first
  have hthird : Format.threeRegisters.fits nodes → ¬ Format.registersNumber.fits nodes := by
    rcases nodes with _ | ⟨a, _ | ⟨b, _ | ⟨c, nodes⟩⟩⟩ <;>
      simp only [Format.fits, Format.operands, Format.fitsClasses, Bool.and_eq_true,
        Bool.false_eq_true, and_false, false_implies, not_and]
    intro hregisters _ _ hnumber
    simp [Operand.accepts_register_eq_false (.inl rfl) hnumber] at hregisters
  have hsingle : Format.register.fits nodes → ¬ Format.address.fits nodes := by
    rcases nodes with _ | ⟨a, nodes⟩ <;>
      simp only [Format.fits, Format.operands, Format.fitsClasses, Bool.and_eq_true,
        Bool.false_eq_true, false_implies, not_and]
    intro hregister haddress
    simp [Operand.accepts_register_eq_false (.inr rfl) haddress] at hregister
  cases mnemonic <;>
    simp only [formats, List.mem_cons, List.not_mem_nil, or_false] at hfirst hsecond <;>
    grind

namespace Node

/-- A list of operands in the first of some formats has one of them. -/
theorem exists_read?_of_readFirst? {formats : List Format} {nodes : List Node}
    {operands : Arguments} (h : Format.readFirst? formats nodes = some operands) :
    ∃ format ∈ formats, format.read? nodes = some operands :=
  List.exists_of_findSome?_eq_some h

/-- The operands of an instruction are read in the one format of it that they have, be it recorded
    or not. A recorded format of another instruction counts for nothing unless they have it. -/
theorem instructionArguments?_eq {node : Node} {mnemonic : Mnemonic} {recorded? : Option Format}
    {format : Format} (hformat : format ∈ mnemonic.formats) (hfits : format.fits node.children)
    (hrecorded : ∀ recorded, recorded? = some recorded → recorded.fits node.children →
      recorded ∈ mnemonic.formats) :
    node.instructionArguments? mnemonic recorded? = format.read? node.children := by
  have hread : (format.read? node.children).isSome := by rw [Format.isSome_read?, hfits]
  -- any format that gives operands is this one
  have hunique : ∀ other ∈ mnemonic.formats, other.fits node.children → other = format :=
    fun other hother hfits' => Mnemonic.fits_unique hother hformat hfits' hfits
  unfold instructionArguments?
  split
  case h_1 operands hoperands =>
    obtain ⟨recorded, hsome, hreads⟩ := Option.bind_eq_some_iff.mp hoperands
    have hfits' : recorded.fits node.children := by
      rw [← Format.isSome_read?, hreads]; rfl
    rw [← hunique recorded (hrecorded recorded hsome hfits') hfits', hreads]
  case h_2 =>
    have hfirst : (Format.readFirst? mnemonic.formats node.children).isSome :=
      List.findSome?_isSome_iff.mpr ⟨format, hformat, hread⟩
    obtain ⟨operands, hoperands⟩ := Option.isSome_iff_exists.mp hfirst
    obtain ⟨other, hother, hreads⟩ := exists_read?_of_readFirst? hoperands
    have hfits' : other.fits node.children := by
      rw [← Format.isSome_read?, hreads]; rfl
    rw [hoperands, ← hunique other hother hfits', hreads]

end Node

end LC3
