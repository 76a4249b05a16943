import LC3.Proofs.Analysis
import LC3.Proofs.Formats
import LC3.Proofs.Stages
import Mathlib.Algebra.GroupWithZero.Nat

namespace LC3

/-!
# Listings

The listing of a program shows each child of its root with the counter at it and the words that it
emits. It is what encoding walks through, written down.

* `Node.listing` — the listing of some statements.
* `Node.product_eq_flatMap_listing` — an image without errors is the words of the listing, one
  behind the other, and every entry of it is encoded.
* `Node.emitted`, `Node.length_eq_emitted` — how many words a statement emits.
* `Node.wordCount_eq_length` — a statement that is encoded emits as many words as it is counted
  for, modulo the size of memory.
-/

/-- A child of the root in a listing. -/
structure Listing.Entry where
  node : Node
  counter : Counter
  /-- The words that the node emits; none if it cannot be encoded. -/
  words : List Word

namespace Node

/-- The load address that a node sets as its first operand. -/
def origin? (node : Node) : Option Word :=
  match node.children.head?.map Node.kind with
  | some (.number origin) => some origin
  | _ => none

/-- The words of a statement at a counter; none if it cannot be encoded. -/
def wordsAt (node : Node) (counter : Counter) (symbols : SymbolTable) : List Word :=
  match node.emit counter symbols with
  | .ok words => words
  | .error _ => []

/-- The listing of some statements, with the counter in front of them. -/
def listing (symbols : SymbolTable) (counter : Counter) : List Node → List Listing.Entry
  | [] => []
  | node :: nodes =>
    let here := counter.step node
    ⟨node, here, node.wordsAt here symbols⟩ :: listing symbols here nodes

/-- A listing has an entry for each node. -/
@[simp] theorem map_node_listing (symbols : SymbolTable) (counter : Counter) (nodes : List Node) :
    (listing symbols counter nodes).map Listing.Entry.node = nodes := by
  induction nodes generalizing counter with
  | nil => rfl
  | cons node nodes ih => simp [listing, ih]

/-- The entries of a listing carry the counters of the trace. -/
@[simp] theorem map_counter_listing (symbols : SymbolTable) (counter : Counter)
    (nodes : List Node) :
    (listing symbols counter nodes).map Listing.Entry.counter = counter.trace nodes := by
  induction nodes generalizing counter with
  | nil => rfl
  | cons node nodes ih => simp [listing, Counter.trace, ih]

/-! ### Images and listings -/

/-- **Images are listings.** If some statements are encoded without an error, then each of them is
    encoded where the listing shows it, and the words are those of the listing in order. -/
theorem product_eq_flatMap_listing {symbols : SymbolTable} {counter : Counter} {nodes : List Node}
    {result : StageResult (List Word)} (h : emitAll symbols counter nodes = .ok result)
    (hnone : result.errors = 0) :
    (∀ entry ∈ listing symbols counter nodes,
        entry.node.emit entry.counter symbols = .ok entry.words) ∧
      result.product = (listing symbols counter nodes).flatMap Listing.Entry.words := by
  induction nodes generalizing counter result with
  | nil =>
    cases h
    simp [listing]
  | cons node nodes ih =>
    rw [emitAll] at h
    cases hrest : emitAll symbols (counter.step node) nodes with
    | error breach => simp [hrest, bind, Except.bind] at h
    | ok rest =>
      cases hemit : node.emit (counter.step node) symbols with
      | ok words =>
        simp only [hrest, hemit, bind, Except.bind, pure, Except.pure, Except.ok.injEq] at h
        subst h
        obtain ⟨hentries, hproduct⟩ := ih hrest hnone
        refine ⟨?_, ?_⟩
        · intro entry hentry
          rcases List.mem_cons.mp hentry with rfl | hentry
          · simp [wordsAt, hemit]
          · exact hentries entry hentry
        · simp [listing, wordsAt, hemit, hproduct]
      | error reason =>
        cases reason with
        | breach breach => simp [hrest, hemit, bind, Except.bind] at h
        | fault fault =>
          -- a fault is an error of the stage, and there is none
          simp only [hrest, hemit, bind, Except.bind, pure, Except.pure, Except.ok.injEq] at h
          subst h
          simp [StageResult.errors, Notice.isError, AssemblyFault.notice] at hnone

/-! ### Sizes -/

/-- The kind of a number operand. -/
theorem kind_of_literal? {node : Node} {literal : Literal} (h : node.literal? = some literal) :
    node.kind = .number literal.value := by
  unfold literal? at h
  split at h
  · cases h; assumption
  · cases h

/-- The kind of a string operand. -/
theorem kind_of_string? {node : Node} {text : String} (h : node.string? = some text) :
    node.kind = .string text := by
  unfold string? at h
  split at h
  · cases h; assumption
  · cases h

/-- A list of nodes that is read as a number operand is one. -/
theorem read?_number_eq_some_iff {nodes : List Node} {operands : Arguments} :
    Format.number.read? nodes = some operands ↔
      ∃ node literal, nodes = [node] ∧ node.literal? = some literal ∧
        .number literal = operands := by
  rcases nodes with _ | ⟨a, _ | ⟨b, nodes⟩⟩ <;> simp [Format.read?, Option.bind_eq_some_iff]

/-- A list of nodes that is read as an address operand is one. -/
theorem read?_address_eq_some_iff {nodes : List Node} {operands : Arguments} :
    Format.address.read? nodes = some operands ↔
      ∃ node address, nodes = [node] ∧ node.address? = some address ∧
        .address address = operands := by
  rcases nodes with _ | ⟨a, _ | ⟨b, nodes⟩⟩ <;> simp [Format.read?, Option.bind_eq_some_iff]

/-- A list of nodes that is read as a number and an address operand is a pair of them. -/
theorem read?_numberAddress_eq_some_iff {nodes : List Node} {operands : Arguments} :
    Format.numberAddress.read? nodes = some operands ↔
      ∃ first second, nodes = [first, second] ∧ ∃ literal, first.literal? = some literal ∧
        ∃ address, second.address? = some address ∧ .numberAddress literal address = operands := by
  rcases nodes with _ | ⟨a, _ | ⟨b, _ | ⟨c, nodes⟩⟩⟩ <;>
    simp [Format.read?, Option.bind_eq_some_iff, and_assoc]

/-- A list of nodes that is read as a string operand is one. -/
theorem read?_string_eq_some_iff {nodes : List Node} {operands : Arguments} :
    Format.string.read? nodes = some operands ↔
      ∃ node text, nodes = [node] ∧ node.string? = some text ∧ .string text = operands := by
  rcases nodes with _ | ⟨a, _ | ⟨b, nodes⟩⟩ <;> simp [Format.read?, Option.bind_eq_some_iff]

/-- A directive that is encoded has the operands of one of its formats. -/
theorem exists_operands_of_emitDirective {node : Node} {directive : Directive}
    {symbols : SymbolTable} {words : List Word}
    (h : node.emitDirective directive symbols = .ok words) :
    ∃ format ∈ directive.formats, ∃ operands, format.read? node.children = some operands ∧
      directive.encode symbols operands = .ok words := by
  unfold emitDirective at h
  split at h
  case h_1 operands hread =>
    obtain ⟨format, hformat, hread⟩ := exists_read?_of_readFirst? hread
    exact ⟨format, hformat, operands, hread, h⟩
  case h_2 => cases h

/-- A `.ORIG` without a format error has a number for its operand. -/
theorem exists_number_of_isOrigin {node : Node} (horigin : node.isOrigin)
    (h : node.formatError? = none) :
    ∃ operand value, node.children = [operand] ∧ operand.kind = .number value := by
  have hkind := isOrigin_iff.mp horigin
  obtain ⟨format, hformat, hfits⟩ := exists_fits_of_directive hkind h
  obtain rfl : format = .number := by simpa [Directive.formats] using hformat
  rw [← Format.isSome_read?, Option.isSome_iff_exists] at hfits
  obtain ⟨operands, hread⟩ := hfits
  obtain ⟨operand, literal, hchildren, hliteral, -⟩ := read?_number_eq_some_iff.mp hread
  exact ⟨operand, literal.value, hchildren, kind_of_literal? hliteral⟩

/-- A `.ORIG` that is encoded emits its operand and sets the counter to it. -/
theorem emit_origin {node : Node} {here : Counter} {symbols : SymbolTable} {words : List Word}
    (horigin : node.isOrigin) (h : node.emit here symbols = .ok words) :
    ∃ origin, node.origin? = some origin ∧ words = [origin] ∧
      ∀ counter : Counter, counter.step node = ⟨origin, origin⟩ := by
  have hkind := isOrigin_iff.mp horigin
  simp only [emit, hkind] at h
  obtain ⟨format, hformat, operands, hread, h⟩ := exists_operands_of_emitDirective h
  obtain rfl : format = .number := by simpa [Directive.formats] using hformat
  obtain ⟨operand, literal, hchildren, hliteral, rfl⟩ := read?_number_eq_some_iff.mp hread
  have hoperand := kind_of_literal? hliteral
  refine ⟨literal.value, ?_, ?_, ?_⟩
  · simp [origin?, hchildren, hoperand]
  · simpa [Directive.encode, pure, Except.pure, eq_comm] using h
  · simp [Counter.step, hkind, hchildren, hoperand]

/-- The number of words that a statement emits. -/
def emitted (node : Node) : Nat :=
  match node.kind with
  | .instruction _ _ _ | .directive .orig | .directive .fill => 1
  | .directive .blkw =>
    match node.children.head?.map Node.kind with
    | some (.number count) => count.toNat
    | _ => 0
  | .directive .stringz =>
    match node.children.head?.map Node.kind with
    | some (.string text) => text.length + 1
    | _ => 0
  | _ => 0

/-- How many words a statement emits depends on the kinds of nodes only. -/
theorem emitted_congr {node other : Node} (hkind : other.kind = node.kind)
    (hchildren : other.children.map kind = node.children.map kind) :
    other.emitted = node.emitted := by
  rw [emitted, emitted, hkind, ← List.head?_map, hchildren, List.head?_map]

/-- Recording a format does not change how many words are emitted. -/
@[simp] theorem emitted_recordFormat (node : Node) : node.recordFormat.emitted = node.emitted := by
  rcases recordFormat_cases node with h | ⟨_, _, _, _, hkind, h⟩
  · rw [h]
  · rw [h, emitted, emitted, hkind]

/-- A directive emits as many words as its operands say. -/
private theorem length_eq_emitted_of_directive {node : Node} {directive : Directive}
    {symbols : SymbolTable} {words : List Word} (hkind : node.kind = .directive directive)
    (h : node.emitDirective directive symbols = .ok words) : words.length = node.emitted := by
  obtain ⟨format, hformat, operands, hread, h⟩ := exists_operands_of_emitDirective h
  cases directive with
  | orig =>
    obtain rfl : format = .number := by simpa [Directive.formats] using hformat
    obtain ⟨operand, origin, -, -, rfl⟩ := read?_number_eq_some_iff.mp hread
    cases h
    simp [emitted, hkind]
  | fill =>
    -- one word, whatever it is
    obtain rfl : format = .address := by simpa [Directive.formats] using hformat
    obtain ⟨operand, address, -, -, rfl⟩ := read?_address_eq_some_iff.mp hread
    obtain ⟨word, -, hword⟩ := bind_eq_ok_iff.mp h
    cases hword
    simp [emitted, hkind]
  | blkw =>
    -- the count is the first operand in either format
    simp only [Directive.formats, List.mem_cons, List.not_mem_nil, or_false] at hformat
    rcases hformat with rfl | rfl
    · obtain ⟨first, count, hchildren, hfirst, rfl⟩ := read?_number_eq_some_iff.mp hread
      cases h
      simp [emitted, hkind, hchildren, kind_of_literal? hfirst]
    · obtain ⟨first, second, hchildren, count, hfirst, address, -, rfl⟩ :=
        read?_numberAddress_eq_some_iff.mp hread
      obtain ⟨word, -, hword⟩ := bind_eq_ok_iff.mp h
      cases hword
      simp [emitted, hkind, hchildren, kind_of_literal? hfirst]
  | stringz =>
    -- a word for each character, and one for the end
    obtain rfl : format = .string := by simpa [Directive.formats] using hformat
    obtain ⟨operand, text, hchildren, htext, rfl⟩ := read?_string_eq_some_iff.mp hread
    cases h
    simp [stringWords, String.length_toList, emitted, hkind, hchildren, kind_of_string? htext]
  | endRegion =>
    cases operands <;> simp only [Directive.encode, reduceCtorEq] at h
    cases h
    simp [emitted, hkind]

/-- **Statements emit as many words as their operands say**, wherever they stand and whatever their
    labels mean. -/
theorem length_eq_emitted {node : Node} {counter : Counter} {symbols : SymbolTable}
    {words : List Word} (h : node.emit counter symbols = .ok words) :
    words.length = node.emitted := by
  unfold emit at h
  split at h
  case h_1 mnemonic format? _ hkind =>
    split at h
    case h_1 operands _ =>
      obtain ⟨word, _, hword⟩ := bind_eq_ok_iff.mp h
      cases hword
      simp [emitted, hkind]
    case h_2 => cases h
  case h_2 directive hkind => exact length_eq_emitted_of_directive hkind h
  case h_3 hinstruction hdirective =>
    cases h
    unfold emitted
    split <;> simp_all

/-- Statements that are all encoded emit as many words as they say together. -/
theorem length_flatMap_words {entries : List Listing.Entry} {symbols : SymbolTable}
    (h : ∀ entry ∈ entries, entry.node.emit entry.counter symbols = .ok entry.words) :
    (entries.flatMap Listing.Entry.words).length =
      ((entries.map Listing.Entry.node).map emitted).sum := by
  have hlengths : (entries.map fun entry => entry.words.length) =
      entries.map (emitted ∘ Listing.Entry.node) :=
    List.map_congr_left fun entry hentry => length_eq_emitted (h entry hentry)
  rw [List.length_flatMap, List.map_map, hlengths]

/-- A statement that does not set the load address is counted for the words that it emits, modulo
    the size of memory. -/
theorem wordCount_eq_emitted {node : Node} (horigin : ¬ node.isOrigin) :
    node.wordCount = BitVec.ofNat 16 node.emitted := by
  cases hkind : node.kind with
  | directive directive =>
    cases directive with
    | orig => exact absurd (isOrigin_iff.mpr hkind) horigin
    | blkw | stringz =>
      simp only [wordCount, emitted, hkind]
      cases node.children.head?.map Node.kind with
      | none => rfl
      | some operand => cases operand <;> simp [BitVec.ofNat_add]
    | fill | endRegion => simp [wordCount, emitted, hkind]
  | _ => simp [wordCount, emitted, hkind]

/-- **Sizes agree.** A statement that is encoded and does not set the load address takes as many
    words as it emits, modulo the size of memory. -/
theorem wordCount_eq_length {node : Node} {counter : Counter} {symbols : SymbolTable}
    {words : List Word} (horigin : ¬ node.isOrigin) (h : node.emit counter symbols = .ok words) :
    node.wordCount = BitVec.ofNat 16 words.length := by
  rw [length_eq_emitted h, wordCount_eq_emitted horigin]

end Node

end LC3
