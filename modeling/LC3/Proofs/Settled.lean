import LC3.Proofs.Encoded
import LC3.Proofs.Naming

namespace LC3

/-!
# Operands with their addresses

Encoding uses a label for its address only. So operands can be settled before they are encoded: each
label is replaced by its address, and places are forgotten. Statements that are settled to the same
are encoded to the same.

* `Arguments.settled` — operands with addresses in the place of labels.
* `Node.read?_settled` — operands of trees that are alike are settled to the same.
* `Node.toOption_emit_settled` — statements that settle to the same have the same words.
-/

/-- The product of a computation that goes on depends on the product of its beginning. -/
theorem toOption_bind {ε α β : Type} (x : Except ε α) (f : α → Except ε β) :
    (x >>= f).toOption = x.toOption.bind fun a => (f a).toOption := by
  cases x <;> rfl

/-! ### Settling -/

/-- A number without its place. -/
def Literal.settled (literal : Literal) : Literal :=
  ⟨literal.value, none⟩

/-- An address operand without its place, with the address of a label in the place of the label.
    What has no address is a label without a name. -/
def Address.settled (symbols : SymbolTable) (address : Address) : Address :=
  match (address.resolve symbols).toOption with
  | some value => literal value none
  | none => label "" none

/-- Operands without their places, with the addresses of labels in the place of the labels. -/
def Arguments.settled (symbols : SymbolTable) : Arguments → Arguments
  | .number literal => .number literal.settled
  | .address target => .address (target.settled symbols)
  | .branch flags target => .branch flags (target.settled symbols)
  | .vector literal => .vector literal.settled
  | .numberAddress literal target => .numberAddress literal.settled (target.settled symbols)
  | .registerAddress first target => .registerAddress first (target.settled symbols)
  | .registersNumber first second literal => .registersNumber first second literal.settled
  | operands => operands

section Settled

variable {symbols : SymbolTable}

/-- Settled addresses need no symbol table. -/
theorem Address.toOption_resolve_settled (address : Address) :
    ((address.settled symbols).resolve .empty).toOption = (address.resolve symbols).toOption := by
  unfold settled
  split
  case h_1 value hvalue => rw [hvalue]; rfl
  case h_2 hnone => rw [hnone]; rfl

/-- A distance is the same to the address that a label stands for. -/
theorem Address.toOption_distance_settled (target : Address) (width : Width) (next : Word) :
    ((target.settled symbols).distance width next .empty).toOption =
      (target.distance width next symbols).toOption := by
  unfold distance
  rw [toOption_bind, toOption_bind, toOption_resolve_settled]
  refine Option.bind_congr fun address _ => ?_
  cases Field.ofWord .signed width (address - next) <;> rfl

/-- A number is packed wherever it stands. -/
theorem Literal.toOption_pack_settled (literal : Literal) (signedness : Signedness)
    (width : Width) :
    (literal.settled.pack signedness width).toOption =
      (literal.pack signedness width).toOption := by
  unfold pack settled
  cases Field.ofWord signedness width literal.value <;> rfl

/-- A number in the place of the last operand is packed wherever it stands. -/
theorem Mnemonic.toOption_packNumber_settled (mnemonic : Mnemonic) (literal : Literal) :
    (mnemonic.packNumber literal.settled).toOption = (mnemonic.packNumber literal).toOption := by
  unfold packNumber
  split
  case h_3 => exact literal.toOption_pack_settled _ _
  all_goals rw [toOption_bind, toOption_bind, literal.toOption_pack_settled]

/-- **Instructions use labels for their addresses only.** -/
theorem Mnemonic.toOption_encode_settled (mnemonic : Mnemonic) (next : Word)
    (operands : Arguments) :
    (mnemonic.encode next .empty (operands.settled symbols)).toOption =
      (mnemonic.encode next symbols operands).toOption := by
  have hpacked : (mnemonic.packOperands next .empty (operands.settled symbols)).toOption =
      (mnemonic.packOperands next symbols operands).toOption := by
    cases operands with
    | address target => exact target.toOption_distance_settled _ next
    | branch flags target | registerAddress register target =>
      simp only [Arguments.settled, packOperands, toOption_bind,
        target.toOption_distance_settled _ next]
    | vector literal => exact literal.toOption_pack_settled _ _
    | registersNumber first second literal =>
      simp only [Arguments.settled, packOperands, toOption_bind,
        mnemonic.toOption_packNumber_settled literal]
    | _ => rfl
  rw [encode, encode, toOption_bind, toOption_bind, hpacked]

/-- **Directives use labels for their addresses only.** -/
theorem Directive.toOption_encode_settled (directive : Directive) (operands : Arguments) :
    (directive.encode .empty (operands.settled symbols)).toOption =
      (directive.encode symbols operands).toOption := by
  cases operands with
  | address target =>
    -- only a word that is filled with an address uses one
    cases directive with
    | fill =>
      simp only [Arguments.settled, encode, toOption_bind, target.toOption_resolve_settled]
    | _ => rfl
  | numberAddress literal target =>
    cases directive with
    | blkw =>
      simp only [Arguments.settled, encode, toOption_bind, target.toOption_resolve_settled]
      rfl
    | _ => rfl
  | _ => cases directive <;> rfl

end Settled

namespace Node

/-! ### Reading -/

/-- Operands that are the same but for their places and for labels that have the same address. -/
structure SettlesAlike (symbols symbols' : SymbolTable) (node other : Node) : Prop where
  kind : other.kind = node.kind
  lookup : node.kind = .labelReference → symbols'.lookup other.text = symbols.lookup node.text

section Reading

variable {symbols symbols' : SymbolTable} {node other : Node} {nodes others : List Node}

private theorem register?_settled (h : node.SettlesAlike symbols symbols' other) :
    other.register? = node.register? := by
  rw [register?, register?, h.kind]

private theorem string?_settled (h : node.SettlesAlike symbols symbols' other) :
    other.string? = node.string? := by
  rw [string?, string?, h.kind]

private theorem flags?_settled (h : node.SettlesAlike symbols symbols' other) :
    other.flags? = node.flags? := by
  rw [flags?, flags?, h.kind]

/-- A literal has the same value in both. -/
private theorem literal?_settled (h : node.SettlesAlike symbols symbols' other) :
    other.literal?.map Literal.settled = node.literal?.map Literal.settled := by
  unfold literal?
  rw [h.kind]
  cases node.kind <;> rfl

/-- An address stands for the same in both. -/
private theorem address?_settled (h : node.SettlesAlike symbols symbols' other) :
    other.address?.map (Address.settled symbols') =
      node.address?.map (Address.settled symbols) := by
  unfold address?
  rw [h.kind]
  cases hkind : node.kind with
  | number value => rfl
  | labelReference =>
    have hlookup := h.lookup hkind
    simp only [Option.map_some, Address.settled, Address.resolve, hlookup]
    cases symbols.lookup node.text <;> rfl
  | _ => rfl

/-- Operands that settle alike are of the same kinds. -/
theorem map_kind_of_settlesAlike (h : List.Forall₂ (SettlesAlike symbols symbols') nodes others) :
    others.map Node.kind = nodes.map Node.kind := by
  induction h with
  | nil => rfl
  | cons hnode _ ih => rw [List.map_cons, List.map_cons, hnode.kind, ih]

/-- What is made of an optional value depends on as much of it as is used. -/
private theorem bind_congr_map {α β γ : Type} {o o' : Option α} {f f' : α → β}
    {g g' : α → Option γ} (h : o'.map f' = o.map f)
    (hsame : ∀ a a', f' a' = f a → g' a' = g a) : o'.bind g' = o.bind g := by
  cases o with
  | none =>
    obtain rfl : o' = none := by simpa using h
    rfl
  | some a =>
    obtain ⟨a', rfl, ha⟩ := Option.map_eq_some_iff.mp h
    exact hsame a a' ha

/-- Operands are read to the same, once they are settled. -/
theorem read?_settled (h : List.Forall₂ (SettlesAlike symbols symbols') nodes others)
    (format : Format) :
    (format.read? others).map (Arguments.settled symbols') =
      (format.read? nodes).map (Arguments.settled symbols) := by
  -- by the number of operands: a format with another number reads nothing on either side
  rcases h with _ | ⟨ha, _ | ⟨hb, _ | ⟨hc, _ | _⟩⟩⟩
  · -- no operands
    cases format <;> rfl
  · -- one operand, which may be settled
    have hliteral := literal?_settled ha
    have haddress := address?_settled ha
    cases format with
    | register | string =>
      simp only [Format.read?, register?_settled ha, string?_settled ha, Option.bind_eq_bind,
        Option.map_bind]
      rfl
    | number | vector =>
      simp only [Format.read?, Option.bind_eq_bind, Option.map_bind]
      exact bind_congr_map hliteral fun a a' hsame => by simp [Arguments.settled, hsame]
    | address =>
      simp only [Format.read?, Option.bind_eq_bind, Option.map_bind]
      exact bind_congr_map haddress fun a a' hsame => by simp [Arguments.settled, hsame]
    | _ => rfl
  · -- two operands, the second of them an address if one is
    have hliteral := literal?_settled ha
    have haddress := address?_settled hb
    cases format with
    | registers =>
      simp only [Format.read?, register?_settled ha, register?_settled hb, Option.bind_eq_bind,
        Option.map_bind, Function.comp_def]
      rfl
    | branch | registerAddress =>
      simp only [Format.read?, register?_settled ha, flags?_settled ha, Option.bind_eq_bind,
        Option.map_bind, Function.comp_def]
      refine Option.bind_congr fun _ _ => ?_
      exact bind_congr_map haddress fun a a' hsame => by simp [Arguments.settled, hsame]
    | numberAddress =>
      simp only [Format.read?, Option.bind_eq_bind, Option.map_bind, Function.comp_def]
      refine bind_congr_map hliteral fun _ _ hnumber => ?_
      exact bind_congr_map haddress fun a a' hsame => by simp [Arguments.settled, hsame, hnumber]
    | _ => rfl
  · -- three operands, the last of them a number or a register
    have hliteral := literal?_settled hc
    cases format with
    | threeRegisters =>
      simp only [Format.read?, register?_settled ha, register?_settled hb, register?_settled hc,
        Option.bind_eq_bind, Option.map_bind, Function.comp_def]
      rfl
    | registersNumber =>
      simp only [Format.read?, register?_settled ha, register?_settled hb, Option.bind_eq_bind,
        Option.map_bind, Function.comp_def]
      refine Option.bind_congr fun _ _ => Option.bind_congr fun _ _ => ?_
      exact bind_congr_map hliteral fun a a' hsame => by simp [Arguments.settled, hsame]
    | _ => rfl
  · -- no format has more than three operands
    cases format <;> rfl

/-- Operands are read in the same format, once they are settled. -/
theorem readFirst?_settled (h : List.Forall₂ (SettlesAlike symbols symbols') nodes others)
    (formats : List Format) :
    (Format.readFirst? formats others).map (Arguments.settled symbols') =
      (Format.readFirst? formats nodes).map (Arguments.settled symbols) := by
  simp only [Format.readFirst?, List.map_findSome?, Function.comp_def, read?_settled h]

/-! ### Statements -/

variable {mnemonic : Mnemonic} {counter : Counter}

/-- The word of an instruction whose operands are settled. -/
private theorem toOption_emit_instruction {format? : Option Format} {flags? : Option Flags}
    (hkind : node.kind = .instruction mnemonic format? flags?) :
    (node.emit counter symbols).toOption =
      ((node.instructionArguments? mnemonic format?).map (Arguments.settled symbols)).bind
        fun operands => (mnemonic.encode counter.next .empty operands).toOption.map ([·]) := by
  unfold emit
  rw [hkind]
  dsimp only
  cases node.instructionArguments? mnemonic format? with
  | none => rfl
  | some operands =>
    -- with their labels settled, the symbol table is not used any more
    simp only [Option.map_some, Option.bind_some, Mnemonic.toOption_encode_settled, toOption_bind]
    cases (mnemonic.encode counter.next symbols operands).toOption <;> rfl

/-- The words of a directive whose operands are settled. -/
private theorem toOption_emit_directive {directive : Directive}
    (hkind : node.kind = .directive directive) :
    (node.emit counter symbols).toOption =
      ((Format.readFirst? directive.formats node.children).map (Arguments.settled symbols)).bind
        fun operands => (directive.encode .empty operands).toOption := by
  unfold emit emitDirective
  rw [hkind]
  dsimp only
  cases Format.readFirst? directive.formats node.children with
  | none => rfl
  | some operands =>
    simp only [Option.map_some, Option.bind_some, Directive.toOption_encode_settled]

/-- **Statements that settle to the same have the same words.** -/
theorem toOption_emit_settled (hkind : other.kind = node.kind)
    (h : List.Forall₂ (SettlesAlike symbols symbols') node.children other.children) :
    (other.emit counter symbols').toOption = (node.emit counter symbols).toOption := by
  cases hnode : node.kind with
  | instruction mnemonic format? flags? =>
    have harguments : (other.instructionArguments? mnemonic format?).map
        (Arguments.settled symbols') =
          (node.instructionArguments? mnemonic format?).map (Arguments.settled symbols) := by
      have hrecorded : (format?.bind (·.read? other.children)).map (Arguments.settled symbols') =
          (format?.bind (·.read? node.children)).map (Arguments.settled symbols) := by
        cases format? with
        | none => rfl
        | some format => exact read?_settled h format
      have hfirst := readFirst?_settled h mnemonic.formats
      -- the recorded format reads both lists of operands or neither of them
      unfold instructionArguments?
      cases hread : format?.bind (·.read? node.children) with
      | none =>
        rw [hread, Option.map_none, Option.map_eq_none_iff] at hrecorded
        rw [hrecorded]
        exact hfirst
      | some operands =>
        rw [hread, Option.map_some] at hrecorded
        obtain ⟨operands', hread', hsame⟩ := Option.map_eq_some_iff.mp hrecorded
        rw [hread']
        exact congrArg some hsame
    rw [toOption_emit_instruction (hkind.trans hnode), toOption_emit_instruction hnode, harguments]
  | directive directive =>
    rw [toOption_emit_directive (hkind.trans hnode), toOption_emit_directive hnode,
      readFirst?_settled h]
  | _ => simp [emit, hkind, hnode]

end Reading

end Node

end LC3
