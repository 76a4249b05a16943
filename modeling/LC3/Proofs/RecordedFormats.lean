import LC3.Proofs.Encoded

namespace LC3

/-!
# Recorded formats

The analysis records the format of each instruction, and encoding tries the recorded format first.
This is a shortcut and nothing more: without it, encoding finds the same format among those of the
instruction, since no list of operands has two of them.

* `Node.unrecorded` — a tree without recorded formats.
* `Node.instructionArguments?_eq_readFirst?` — the operands of an instruction, whatever is recorded.
* `Node.encode_unrecorded` — encoding does not depend on recorded formats.
* `Node.analyze_analyze` — a second analysis changes nothing.
* `Node.formats_only_recorded` — all of it together, with what the analysis changes in a tree.
-/

namespace Node

/-! ### Trees without recorded formats -/

/-- What a node is, less the format that is recorded for it. -/
def Kind.unrecorded : Kind → Kind
  | .instruction mnemonic _ flags? => .instruction mnemonic none flags?
  | kind => kind

mutual

/-- The same tree without any recorded format. -/
def unrecorded : Node → Node
  | ⟨kind, token?, children⟩ => ⟨kind.unrecorded, token?, unrecordedAll children⟩

/-- The same trees without any recorded format. -/
def unrecordedAll : List Node → List Node
  | [] => []
  | node :: nodes => node.unrecorded :: unrecordedAll nodes

end

/-- Formats are removed from each tree of a list. -/
theorem unrecordedAll_eq_map (nodes : List Node) : unrecordedAll nodes = nodes.map unrecorded := by
  induction nodes with
  | nil => rfl
  | cons node nodes ih => rw [unrecordedAll, ih, List.map_cons]

section Parts

variable (node : Node)

/-- A node without a format keeps its token, and so on below it. -/
theorem unrecorded_eq : node.unrecorded =
    ⟨node.kind.unrecorded, node.token?, node.children.map unrecorded⟩ := by
  obtain ⟨kind, token?, children⟩ := node
  rw [unrecorded, unrecordedAll_eq_map]

@[simp] theorem kind_unrecorded : node.unrecorded.kind = node.kind.unrecorded := by
  rw [unrecorded_eq]

@[simp] theorem children_unrecorded :
    node.unrecorded.children = node.children.map unrecorded := by
  rw [unrecorded_eq]

@[simp] theorem location?_unrecorded : node.unrecorded.location? = node.location? := by
  rw [location?, location?, unrecorded_eq]

@[simp] theorem text_unrecorded : node.unrecorded.text = node.text := by
  rw [text, text, unrecorded_eq]

/-! ### Operands

An instruction is no operand, so the kind of an operand stays what it is. -/

@[simp] private theorem register?_unrecorded : node.unrecorded.register? = node.register? := by
  simp only [register?, kind_unrecorded]
  cases node.kind <;> rfl

@[simp] private theorem literal?_unrecorded : node.unrecorded.literal? = node.literal? := by
  rw [literal?, literal?, kind_unrecorded, location?_unrecorded]
  cases node.kind <;> rfl

@[simp] private theorem string?_unrecorded : node.unrecorded.string? = node.string? := by
  simp only [string?, kind_unrecorded]
  cases node.kind <;> rfl

@[simp] private theorem address?_unrecorded : node.unrecorded.address? = node.address? := by
  unfold address?
  rw [kind_unrecorded, location?_unrecorded, text_unrecorded]
  cases node.kind <;> rfl

@[simp] private theorem flags?_unrecorded : node.unrecorded.flags? = node.flags? := by
  simp only [flags?, kind_unrecorded]
  cases node.kind <;> rfl

end Parts

/-- Operands are read whatever is recorded in them. -/
@[simp] theorem read?_unrecorded (format : Format) (nodes : List Node) :
    format.read? (nodes.map unrecorded) = format.read? nodes := by
  rcases nodes with _ | ⟨a, _ | ⟨b, _ | ⟨c, _ | ⟨d, nodes⟩⟩⟩⟩ <;> cases format <;>
    simp [Format.read?]

@[simp] theorem readFirst?_unrecorded (formats : List Format) (nodes : List Node) :
    Format.readFirst? formats (nodes.map unrecorded) = Format.readFirst? formats nodes := by
  simp only [Format.readFirst?, read?_unrecorded]

/-- **The shortcut finds what the search finds.** The operands of an instruction are those in the
    first of its formats that they have, whichever format of it is recorded. -/
theorem instructionArguments?_eq_readFirst? {node : Node} {mnemonic : Mnemonic}
    {recorded? : Option Format}
    (hown : ∀ recorded, recorded? = some recorded → recorded ∈ mnemonic.formats) :
    node.instructionArguments? mnemonic recorded? =
      Format.readFirst? mnemonic.formats node.children := by
  cases hfirst : Format.readFirst? mnemonic.formats node.children with
  | none =>
    -- operands that have no format of the instruction do not have the recorded one
    have hnone : ∀ format ∈ mnemonic.formats, format.read? node.children = none :=
      List.findSome?_eq_none_iff.mp hfirst
    have hrecorded : recorded?.bind (·.read? node.children) = none := by
      cases recorded? with
      | none => rfl
      | some recorded => exact hnone recorded (hown recorded rfl)
    simp [instructionArguments?, hrecorded, hfirst]
  | some operands =>
    obtain ⟨format, hformat, hread⟩ := exists_read?_of_readFirst? hfirst
    -- the recorded format is tried first, and its operands are the same
    have hfits : format.fits node.children := by
      rw [← Format.isSome_read?, hread]
      rfl
    rw [instructionArguments?_eq hformat hfits fun recorded hsome _ => hown recorded hsome, hread]

/-! ### Statements -/

section Statements

variable {node : Node} {counter : Counter}

/-- **A statement is encoded whatever is recorded**, if no format of another instruction is. -/
theorem emit_unrecorded (hown : node.RecordsOwnFormat) (counter : Counter)
    (symbols : SymbolTable) :
    node.unrecorded.emit counter symbols = node.emit counter symbols := by
  cases hkind : node.kind with
  | instruction mnemonic recorded? flags? =>
    -- with the format or without, the search finds the operands
    have hrecorded : node.instructionArguments? mnemonic recorded? =
        Format.readFirst? mnemonic.formats node.children := by
      apply instructionArguments?_eq_readFirst?
      intro recorded hsome
      exact hown mnemonic recorded flags? (by rw [hkind, hsome])
    have hsearched : node.unrecorded.instructionArguments? mnemonic none =
        Format.readFirst? mnemonic.formats node.children := by
      have hnone : ∀ recorded, none = some recorded → recorded ∈ mnemonic.formats := nofun
      rw [instructionArguments?_eq_readFirst? hnone, children_unrecorded, readFirst?_unrecorded]
    simp only [emit, kind_unrecorded, hkind, Kind.unrecorded, hrecorded, hsearched,
      text_unrecorded, location?_unrecorded]
  | directive directive =>
    simp only [emit, kind_unrecorded, hkind, Kind.unrecorded, emitDirective, children_unrecorded,
      readFirst?_unrecorded, location?_unrecorded]
  | _ => simp only [emit, kind_unrecorded, hkind, Kind.unrecorded]

/-- What the first operand is, less a recorded format. -/
private theorem head?_unrecorded (nodes : List Node) :
    (nodes.map unrecorded).head?.map kind = (nodes.head?.map kind).map Kind.unrecorded := by
  cases nodes <;> simp

/-- The counter moves whatever is recorded. -/
theorem step_unrecorded (counter : Counter) (node : Node) :
    counter.step node.unrecorded = counter.step node := by
  simp only [Counter.step, wordCount, kind_unrecorded, children_unrecorded, head?_unrecorded]
  -- a directive takes a number or a string to be counted by, and no instruction
  generalize node.children.head?.map kind = first?
  cases node.kind with
  | directive directive =>
    rcases first? with _ | first
    · cases directive <;> rfl
    · cases directive <;> cases first <;> rfl
  | _ => rfl

/-- What is logged does not depend on recorded formats. -/
theorem emitLog_unrecorded (node : Node) (counter : Counter) (words : List Word) :
    node.unrecorded.emitLog counter words = node.emitLog counter words := by
  simp only [emitLog, kind_unrecorded]
  cases node.kind <;> rfl

end Statements

/-! ### Programs -/

/-- **Encoding does not depend on recorded formats**, if none is of another instruction. -/
theorem encode_unrecorded {root : Node} (hown : ∀ node ∈ root.children, node.RecordsOwnFormat)
    (symbols : SymbolTable) : root.unrecorded.encode symbols = root.encode symbols := by
  have hall : ∀ (nodes : List Node) (counter : Counter),
      (∀ node ∈ nodes, node.RecordsOwnFormat) →
        emitAll symbols counter (nodes.map unrecorded) = emitAll symbols counter nodes := by
    intro nodes
    induction nodes with
    | nil => simp
    | cons node nodes ih =>
      intro counter h
      obtain ⟨hnode, hnodes⟩ := List.forall_mem_cons.mp h
      simp only [List.map_cons, emitAll, step_unrecorded, emit_unrecorded hnode,
        emitLog_unrecorded, ih _ hnodes]
  rw [encode, encode, children_unrecorded, hall _ _ hown]

/-- Recording the format of a statement changes only what is recorded. -/
@[simp] theorem unrecorded_recordFormat (node : Node) :
    node.recordFormat.unrecorded = node.unrecorded := by
  rcases recordFormat_cases node with h | ⟨_, _, _, _, hkind, h⟩
  · rw [h]
  · rw [h, unrecorded_eq, unrecorded_eq, hkind]
    rfl

/-- Whatever else was recorded, a format is recorded for the same operands. -/
@[simp] theorem recordFormat_recordFormat (node : Node) :
    node.recordFormat.recordFormat = node.recordFormat := by
  cases hkind : node.kind with
  | instruction mnemonic recorded? flags? =>
    cases hmatched : matchedFormat? mnemonic node.children with
    | none => simp only [recordFormat, hkind, hmatched]
    | some format => simp only [recordFormat, hkind, hmatched]
  | _ => simp only [recordFormat, hkind]

/-- A format is recorded once. -/
theorem formatRecord?_recordFormat (node : Node) :
    node.recordFormat.formatRecord? = node.formatRecord? := by
  rcases recordFormat_cases node with h | ⟨_, _, _, _, hkind, h⟩
  · rw [h]
  · rw [h]
    simp only [formatRecord?, hkind, line, location?]

/-- **A second analysis changes nothing**, and finds and tells the same again. -/
theorem analyze_analyze (root : Node) : root.analyze.product.analyze = root.analyze := by
  simp only [analyze, regionNotices_map_recordFormat, List.map_map, Function.comp_def,
    recordFormat_recordFormat, List.filterMap_map, formatRecord?_recordFormat, List.length_map]

/-- What the analysis makes of a statement: the same, but for the format of an instruction. Where
    the operands have a format of the instruction, it is recorded. -/
structure RecordsFormat (before after : Node) : Prop where
  token? : after.token? = before.token?
  children : after.children = before.children
  kind : after.kind = before.kind ∨
    ∃ mnemonic recorded? flags? format, before.kind = .instruction mnemonic recorded? flags? ∧
      after.kind = .instruction mnemonic (some format) flags? ∧ format ∈ mnemonic.formats ∧
      format.fits before.children

/-- Recording a format changes nothing else. -/
theorem recordsFormat_recordFormat (node : Node) : node.RecordsFormat node.recordFormat := by
  refine ⟨token?_recordFormat node, children_recordFormat node, ?_⟩
  cases hkind : node.kind with
  | instruction mnemonic recorded? flags? =>
    cases hmatched : matchedFormat? mnemonic node.children with
    | none => exact .inl (by simp only [recordFormat, hkind, hmatched])
    | some format =>
      have hfits : format.fits node.children := by simpa using List.find?_some hmatched
      refine .inr ⟨mnemonic, recorded?, flags?, format, rfl, ?_,
        List.mem_of_find?_eq_some hmatched, hfits⟩
      simp only [recordFormat, hkind, hmatched]
  | _ => exact .inl (by simp only [recordFormat, hkind])

/-- **Formats are only recorded.** A tree that records no format of another instruction is encoded
    to the same image, notices and log as without any recorded format and as behind the analysis,
    whether that has found errors or not: no list of operands has two formats of one instruction.
    And the analysis changes nothing in a tree but the formats of its statements; a second one
    changes nothing and finds the same. -/
theorem formats_only_recorded (root : Node) (symbols : SymbolTable) :
    ((∀ node ∈ root.children, node.RecordsOwnFormat) →
      ∃ result, root.encode symbols = .ok result ∧ root.unrecorded.encode symbols = .ok result ∧
        root.analyze.product.encode symbols = .ok result) ∧
    (∀ (mnemonic : Mnemonic) (first second : Format) (nodes : List Node),
      first ∈ mnemonic.formats → second ∈ mnemonic.formats →
        first.fits nodes → second.fits nodes → first = second) ∧
    root.analyze.product.kind = root.kind ∧ root.analyze.product.token? = root.token? ∧
    List.Forall₂ RecordsFormat root.children root.analyze.product.children ∧
    root.analyze.product.analyze = root.analyze := by
  refine ⟨fun hown => ?_, fun _ _ _ _ => Mnemonic.fits_unique, rfl, rfl, ?_, analyze_analyze root⟩
  · obtain ⟨log, hresult⟩ := encode_eq_listing hown symbols
    have hrecorded : ∀ node ∈ root.analyze.product.children, node.RecordsOwnFormat := by
      intro node hnode
      obtain ⟨before, hbefore, rfl⟩ := List.mem_map.mp hnode
      exact (hown before hbefore).recordFormat
    have hsame : root.analyze.product.unrecorded = root.unrecorded := by
      have hchildren : (root.children.map recordFormat).map unrecorded =
          root.children.map unrecorded := by
        simp only [List.map_map, Function.comp_def, unrecorded_recordFormat]
      rw [unrecorded_eq, unrecorded_eq root, ← hchildren]
      rfl
    refine ⟨_, hresult, ?_, ?_⟩
    · rw [encode_unrecorded hown, hresult]
    · rw [← encode_unrecorded hrecorded, hsame, encode_unrecorded hown, hresult]
  · show List.Forall₂ RecordsFormat root.children (root.children.map recordFormat)
    rw [List.forall₂_map_right_iff, List.forall₂_same]
    exact fun node _ => recordsFormat_recordFormat node

/-- An addition with a format recorded that its operands had before the last of them was changed to
    a number, and an instruction with an operand too many, for which the analysis fails. -/
theorem formats_only_recorded_stale :
    let register : Node := ⟨.register ⟨1#3⟩, none, []⟩
    let number : Node := ⟨.number 5#16, none, []⟩
    let root := Node.root
      [⟨.instruction .add (some .threeRegisters) none, none, [register, register, number]⟩,
        ⟨.instruction .halt none none, none, [number]⟩]
    root.analyze.errors = 3 ∧ (∀ node ∈ root.children, node.RecordsOwnFormat) ∧
      ∃ result, result.product.words = [0x1265#16] ∧ result.errors = 1 ∧
        root.encode .empty = .ok result ∧ root.unrecorded.encode .empty = .ok result ∧
        root.analyze.product.encode .empty = .ok result := by
  intro register number root
  have hown : ∀ node ∈ root.children, node.RecordsOwnFormat := by
    intro node hnode mnemonic recorded flags? hkind
    simp only [root, Node.root, List.mem_cons, List.not_mem_nil, or_false] at hnode
    rcases hnode with rfl | rfl
    · cases hkind
      decide
    · cases hkind
  obtain ⟨result, hencode, hsame⟩ := (formats_only_recorded root .empty).1 hown
  have hfound : (root.encode .empty).map (fun result => (result.product.words, result.errors)) =
      .ok ([0x1265#16], 1) := by decide +kernel
  rw [hencode] at hfound
  obtain ⟨hwords, herrors⟩ := Prod.mk.inj (Except.ok.inj hfound)
  exact ⟨by decide +kernel, hown, result, hwords, herrors, hencode, hsame⟩

end Node

end LC3
