import LC3.Proofs.Distance
import LC3.Proofs.Faults
import LC3.Proofs.Loader
import LC3.Proofs.NodeTokens

namespace LC3

/-!
# Words that stand for addresses

A word in a place that takes an address is a number if it has the form of one, and else it is a
label. Which labels a program defines makes no difference: a label that is spelled like a
hexadecimal number can be defined, but the word is the number wherever it is used.

* `Node.KeepsToWord` — what the kind of an operand tells about the word that it comes from.
* `Node.Aims` — the operand of a statement that stands for an address.
* `Listing.Entry.Holds` — the words of a statement hold an address.
* `Assembly.words_aim` — which address the words of a statement hold for an operand that is a word.
* `Assembly.hex_label_aside` — a label that cannot be used.
-/

/-! ### Operands and their words -/

/-- What the kind of an operand tells about the word that it comes from, if it comes from one. -/
def Node.KeepsToWord (node : Node) : Prop :=
  ∀ word, node.token? = some word → word.kind = .word →
    (∃ value, Line.HexNumber word.text value ∧ node.kind = .number (BitVec.ofNat 16 value)) ∨
    (node.kind = .labelReference ∧ ¬ Grammar.IsHexForm word.text) ∨
    node.address? = none

/-- **Operands keep to their words.** A word is read as a number, as a label or as something else by
    how it is spelled. -/
theorem Node.IsRead.keepsToWord {node : Node} (h : node.IsRead) : node.KeepsToWord := by
  intro word hword hkind
  -- only numbers and labels stand for addresses
  cases hnode : node.kind with
  | number value =>
    obtain ⟨token, htoken, hread⟩ := h (isFlags_eq_false_iff.mpr (by simp [hnode]))
    obtain rfl := Option.some.inj (hword.symm.trans htoken)
    rw [hnode] at hread
    rcases hread with hdigits | ⟨-, value, -, hvalue, rfl⟩
    · rw [hkind] at hdigits
      cases hdigits
    · exact .inl ⟨value, hvalue, rfl⟩
  | labelReference =>
    obtain ⟨token, htoken, hread⟩ := h (isFlags_eq_false_iff.mpr (by simp [hnode]))
    obtain rfl := Option.some.inj (hword.symm.trans htoken)
    rw [hnode] at hread
    exact .inr (.inl ⟨rfl, hread.2⟩)
  | _ => exact .inr (.inr (by rw [address?, hnode]))

/-- The operands of a source that assembles keep to their words. -/
theorem Assembly.Stages.keepsToWord {source : String} {tree root : Node} {symbols : SymbolTable}
    {image : Image} (h : Stages source tree root symbols image) :
    ∀ node ∈ root.children, ∀ operand ∈ node.children, operand.KeepsToWord := by
  obtain ⟨parsed, hparse, hout⟩ := h.parsed
  have hread := Node.isRead_of_parse hparse hout
  rw [Node.children_of_analyze h.analyzed]
  intro node hnode operand hoperand
  obtain ⟨before, hbefore, rfl⟩ := List.mem_map.mp hnode
  rw [Node.children_recordFormat] at hoperand
  exact (hread operand (Node.mem_walkAll_of_mem_children hbefore hoperand)).keepsToWord

/-! ### Operands that stand for addresses -/

/-- The operand of a statement that stands for an address: that of a `.FILL`, the value that fills a
    `.BLKW`, or the one that an instruction measures the distance to. A register stands for none. -/
inductive Node.Aims (node : Node) : Node → Prop where
  | fill {operand : Node} (hkind : node.kind = .directive .fill)
    (hchildren : node.children = [operand]) : Aims node operand
  | block {count operand : Node} (hkind : node.kind = .directive .blkw)
    (hchildren : node.children = [count, operand]) : Aims node operand
  | target {mnemonic : Mnemonic} {format? : Option Format} {flags? : Option Flags} {operand : Node}
    {width : Width} (hkind : node.kind = .instruction mnemonic format? flags?)
    (hmeasures : mnemonic.Measures node.children operand width)
    (hregister : operand.register? = none) : Aims node operand

/-- The words of an entry hold the address that an operand stands for: as they are, or as the
    distance to it from behind the instruction. -/
inductive Listing.Entry.Holds (entry : Listing.Entry) (operand : Node) (target : Word) : Prop where
  | fill (hkind : entry.node.kind = .directive .fill) (hchildren : entry.node.children = [operand])
    (hwords : entry.words = [target])
  | block {count : Node} {size : Word} (hkind : entry.node.kind = .directive .blkw)
    (hchildren : entry.node.children = [count, operand]) (hcount : count.kind = .number size)
    (hwords : entry.words = List.replicate size.toNat target)
  | distance {mnemonic : Mnemonic} {format? : Option Format} {flags? : Option Flags} {width : Width}
    {word : Word} (hkind : entry.node.kind = .instruction mnemonic format? flags?)
    (hmeasures : mnemonic.Measures entry.node.children operand width)
    (hwords : entry.words = [word])
    (harrives : entry.counter.next + (word.setWidth width.bits).signExtend 16 = target)

namespace Node

variable {node operand : Node} {counter : Counter} {symbols : SymbolTable} {words : List Word}

/-- An instruction that is encoded has the operands of one of its formats. -/
theorem exists_fits_of_emit {mnemonic : Mnemonic} {format? : Option Format} {flags? : Option Flags}
    (hkind : node.kind = .instruction mnemonic format? flags?) (hown : node.RecordsOwnFormat)
    (h : node.emit counter symbols = .ok words) :
    ∃ format ∈ mnemonic.formats, format.fits node.children := by
  simp only [emit, hkind] at h
  split at h
  case h_2 => cases h
  case h_1 operands harguments =>
    obtain ⟨format, hformat, hread⟩ := exists_read?_of_instructionArguments?
      (fun recorded hsome => hown mnemonic recorded flags? (by rw [hkind, hsome])) harguments
    refine ⟨format, hformat, ?_⟩
    rw [← Format.isSome_read?, hread]
    rfl

/-- The operand that an instruction measures the distance to stands for an address, unless it is a
    register. -/
theorem isSome_address?_of_measures {mnemonic : Mnemonic} {format : Format} {nodes : List Node}
    {width : Width} (hmeasures : mnemonic.Measures nodes operand width)
    (hregister : operand.register? = none) (hformat : format ∈ mnemonic.formats)
    (hfits : format.fits nodes) : operand.address?.isSome := by
  rw [isSome_address?]
  cases hmeasures with
  | branch =>
    -- each instruction has one format with an operand of this kind, except for jumps
    obtain rfl : format = .branch := by simpa [Mnemonic.formats] using hformat
    simpa [Format.fits, Format.operands, Format.fitsClasses] using (Bool.and_eq_true_iff.mp hfits).2
  | registerAddress register operand hmnemonic =>
    obtain rfl : format = .registerAddress := by
      revert hformat hmnemonic
      cases mnemonic <;> simp [Mnemonic.formats]
    simpa [Format.fits, Format.operands, Format.fitsClasses] using (Bool.and_eq_true_iff.mp hfits).2
  | jump operand hmnemonic =>
    have hformats : format = .register ∨ format = .address := by
      revert hformat hmnemonic
      cases mnemonic <;> simp +contextual [Mnemonic.formats]
    rcases hformats with rfl | rfl
    · have hsome : operand.register?.isSome := by
        rw [isSome_register?]
        simpa [Format.fits, Format.operands, Format.fitsClasses] using hfits
      rw [hregister] at hsome
      cases hsome
    · simpa [Format.fits, Format.operands, Format.fitsClasses] using hfits

/-- The address of an operand is one that the operand stands for. -/
theorem denotes_of_resolve {address : Address} {target : Word}
    (haddress : operand.address? = some address) (h : address.resolve symbols = .ok target) :
    operand.Denotes symbols target := by
  cases hkind : operand.kind with
  | number value =>
    rw [address?, hkind] at haddress
    obtain rfl := Option.some.inj haddress
    obtain rfl : value = target := Except.ok.inj h
    exact .number hkind
  | labelReference =>
    rw [address?, hkind] at haddress
    obtain rfl := Option.some.inj haddress
    have hlookup : symbols.lookup operand.text = some target := by
      rw [Address.resolve] at h
      split at h
      case h_1 value hvalue => rw [hvalue, Except.ok.inj h]
      case h_2 => cases h
    exact .label hkind hlookup
  | _ => simp [address?, hkind] at haddress

/-- An instruction that is encoded holds the distance to an address that its operand stands for. -/
theorem exists_word_of_measures {mnemonic : Mnemonic} {format? : Option Format}
    {flags? : Option Flags} {width : Width} {address : Address}
    (hkind : node.kind = .instruction mnemonic format? flags?) (hown : node.RecordsOwnFormat)
    (hmeasures : mnemonic.Measures node.children operand width)
    (haddress : operand.address? = some address) (h : node.emit counter symbols = .ok words) :
    ∃ target word, operand.Denotes symbols target ∧ words = [word] ∧
      counter.next + (word.setWidth width.bits).signExtend 16 = target := by
  obtain ⟨high, hhigh, hemit⟩ := exists_emit_eq_distance hkind hown hmeasures haddress
  rw [hemit] at h
  obtain ⟨packed, hpacked, rfl⟩ := map_eq_ok_iff.mp h
  obtain ⟨target, hresolve, hfield⟩ := bind_eq_ok_iff.mp hpacked
  -- the field takes some distance, so one reaches the target
  have hreached : ∃ k, width.Reaches counter.next target k := by
    by_contra hnone
    rw [Address.distance_of_not_reaches hresolve (not_exists.mp hnone)] at hpacked
    cases hpacked
  obtain ⟨k, hk⟩ := hreached
  rw [Address.distance_of_reaches hresolve hk] at hpacked
  obtain rfl := Except.ok.inj hpacked
  refine ⟨target, _, denotes_of_resolve haddress hresolve, rfl, ?_⟩
  -- the distance is the low bits of the word, since the others are empty there
  have hlow : (high ||| (BitVec.ofInt width.bits k).setWidth 16).setWidth width.bits =
      BitVec.ofInt width.bits k := by
    rw [BitVec.setWidth_or, hhigh, BitVec.zero_or, BitVec.setWidth_setWidth_of_le _ width.atMost,
      BitVec.setWidth_eq]
  rw [hlow, signExtend_ofInt hk.least hk.greatest, ofInt_eq_sub_iff.mpr hk.arrives,
    BitVec.add_comm, BitVec.sub_add_cancel]

/-- **Addresses are held.** A statement that is encoded holds an address that its operand stands
    for. -/
theorem Aims.exists_holds {entry : Listing.Entry} (h : entry.node.Aims operand)
    (hown : entry.node.RecordsOwnFormat)
    (hemit : entry.node.emit entry.counter symbols = .ok entry.words) :
    ∃ target, operand.Denotes symbols target ∧ entry.Holds operand target := by
  cases h with
  | fill hkind hchildren =>
    have hdirective : entry.node.emitDirective .fill symbols = .ok entry.words := by
      rw [← hemit, emit, hkind]
    obtain ⟨format, hformat, operands, hread, hencode⟩ :=
      exists_operands_of_emitDirective hdirective
    obtain rfl : format = .address := by simpa [Directive.formats] using hformat
    obtain ⟨operand', address, hchildren', haddress, rfl⟩ := read?_address_eq_some_iff.mp hread
    obtain rfl : operand = operand' := by simpa [hchildren] using hchildren'
    obtain ⟨target, hresolve, hwords⟩ := bind_eq_ok_iff.mp hencode
    exact ⟨target, denotes_of_resolve haddress hresolve,
      .fill hkind hchildren (Except.ok.inj hwords).symm⟩
  | block hkind hchildren =>
    have hdirective : entry.node.emitDirective .blkw symbols = .ok entry.words := by
      rw [← hemit, emit, hkind]
    obtain ⟨format, hformat, operands, hread, hencode⟩ :=
      exists_operands_of_emitDirective hdirective
    have hformats : format = .number ∨ format = .numberAddress := by
      simpa [Directive.formats] using hformat
    rcases hformats with rfl | rfl
    · -- a block with a count only has no operand to aim with
      obtain ⟨count, literal, hsingle, -⟩ := read?_number_eq_some_iff.mp hread
      simp [hchildren] at hsingle
    · obtain ⟨count', operand', hchildren', literal, hliteral, address, haddress, rfl⟩ :=
        read?_numberAddress_eq_some_iff.mp hread
      obtain ⟨rfl, rfl⟩ : _ = count' ∧ operand = operand' := by simpa [hchildren] using hchildren'
      obtain ⟨target, hresolve, hwords⟩ := bind_eq_ok_iff.mp hencode
      exact ⟨target, denotes_of_resolve haddress hresolve,
        .block hkind hchildren (kind_of_literal? hliteral) (Except.ok.inj hwords).symm⟩
  | target hkind hmeasures hregister =>
    obtain ⟨format, hformat, hfits⟩ := exists_fits_of_emit hkind hown hemit
    obtain ⟨address, haddress⟩ := Option.isSome_iff_exists.mp
      (isSome_address?_of_measures hmeasures hregister hformat hfits)
    obtain ⟨target, word, hdenotes, hwords, harrives⟩ :=
      exists_word_of_measures hkind hown hmeasures haddress hemit
    exact ⟨target, hdenotes, .distance hkind hmeasures hwords harrives⟩

theorem Aims.mem_children (h : node.Aims operand) : operand ∈ node.children := by
  cases h with
  | fill _ hchildren => simp [hchildren]
  | block _ hchildren => simp [hchildren]
  | target _ hmeasures _ =>
    generalize node.children = nodes at hmeasures
    cases hmeasures <;> simp

end Node

/-! ### Sources -/

namespace Assembly

/-- **What words mean.** In a source that assembles, a word in the place of an address is a number
    if it has the form of a hexadecimal number, and the statement holds that number. Any other word
    is a label of the symbol table, and the statement holds the address of the label. -/
theorem words_aim {source : String} {diagnostics : Diagnostics} {assembly : Assembly}
    {image : Image} (h : assemble source diagnostics = .ok assembly)
    (himage : assembly.outcome = .ok image) :
    ∃ tree root symbols, Stages source tree root symbols image ∧
      ∀ entry ∈ Node.listing symbols .start root.children, ∀ operand word,
        entry.node.Aims operand → operand.token? = some word → word.kind = .word →
        (¬ Grammar.IsHexForm word.text → operand.kind = .labelReference ∧
          ∃ target, symbols.lookup word.text = some target ∧ entry.Holds operand target) ∧
        ∀ value, Line.HexNumber word.text value →
          operand.kind = .number (BitVec.ofNat 16 value) ∧
            entry.Holds operand (BitVec.ofNat 16 value) := by
  obtain ⟨tree, root, symbols, hstages⟩ := exists_stages h himage
  obtain ⟨-, hencoded⟩ := words_eq_flatMap_listing hstages
  refine ⟨tree, root, symbols, hstages, ?_⟩
  intro entry hentry operand word haims htoken hword
  have hnode : entry.node ∈ root.children := by
    rw [← Node.map_node_listing symbols .start root.children]
    exact List.mem_map_of_mem hentry
  have hkeeps := hstages.keepsToWord entry.node hnode operand haims.mem_children word htoken hword
  obtain ⟨target, hdenotes, hholds⟩ :=
    haims.exists_holds (hstages.recordsOwnFormat entry.node hnode) (hencoded entry hentry)
  have htext : operand.text = word.text := by
    rw [Node.text, htoken]
  cases hdenotes with
  | number hkind =>
    -- only a word that has the form of a number is one
    rcases hkeeps with ⟨value, hvalue, hnumber⟩ | ⟨hlabel, -⟩ | hnone
    · obtain rfl : target = BitVec.ofNat 16 value := by
        rw [hkind] at hnumber
        exact Node.Kind.number.inj hnumber
      refine ⟨fun hform => absurd ⟨value, hvalue⟩ hform, fun other hother => ?_⟩
      have hsame : some other = some value :=
        (Line.hexValue_eq_some_iff.mpr hother).symm.trans (Line.hexValue_eq_some_iff.mpr hvalue)
      obtain rfl := Option.some.inj hsame
      exact ⟨hkind, hholds⟩
    · rw [hkind] at hlabel
      cases hlabel
    · simp [Node.address?, hkind] at hnone
  | label hkind hlookup =>
    rcases hkeeps with ⟨value, -, hnumber⟩ | ⟨-, hform⟩ | hnone
    · rw [hkind] at hnumber
      cases hnumber
    · -- it is a label only where the word has no form of a number
      rw [htext] at hlookup
      exact ⟨fun _ => ⟨hkind, target, hlookup, hholds⟩,
        fun value hvalue => absurd ⟨value, hvalue⟩ hform⟩
    · simp [Node.address?, hkind] at hnone

/-- A block that is filled with the address of a label, and a branch to a label that starts with `x`
    and has other letters. -/
theorem words_aim_block :
    let source := ".orig x3000\nxyz BR xyz\nB .blkw 2, xyz\n.end"
    let image : Image := ⟨[0x3000#16, 0x0FFF#16, 0x3000#16, 0x3000#16]⟩
    (assemble source .empty).map Assembly.outcome = .ok (.ok image) ∧
      ∃ tree root symbols, Stages source tree root symbols image ∧
        ∀ entry ∈ Node.listing symbols .start root.children, ∀ operand word,
          entry.node.Aims operand → operand.token? = some word → word.kind = .word →
          (¬ Grammar.IsHexForm word.text → operand.kind = .labelReference ∧
            ∃ target, symbols.lookup word.text = some target ∧ entry.Holds operand target) ∧
          ∀ value, Line.HexNumber word.text value →
            operand.kind = .number (BitVec.ofNat 16 value) ∧
              entry.Holds operand (BitVec.ofNat 16 value) := by
  intro source image
  have hrun : (assemble source .empty).map Assembly.outcome = .ok (.ok image) := by decide +kernel
  obtain ⟨assembly, h, himage⟩ := map_eq_ok_iff.mp hrun
  exact ⟨hrun, words_aim h himage⟩

/-- A label that is spelled like a number: where its word is used it is the number, and not the
    address of the label. -/
theorem hex_label_aside :
    let source := ".orig x3000\nx10 .fill 5\n.fill x10\n.end"
    let image : Image := ⟨[0x3000#16, 5#16, 0x10#16]⟩
    (assemble source .empty).map Assembly.outcome = .ok (.ok image) ∧
      ∃ tree root symbols, Stages source tree root symbols image ∧
        (∃ label ∈ root.children, label.kind = .labelDefinition ∧ label.text = "x10") ∧
        symbols.lookup "x10" = some 0x3000#16 ∧
        ∃ entry ∈ Node.listing symbols .start root.children, ∃ operand word,
          entry.node.Aims operand ∧ operand.token? = some word ∧ word.kind = .word ∧
            word.text = "x10" ∧ ¬ entry.Holds operand 0x3000#16 := by
  intro source image
  have hrun : (assemble source .empty).map Assembly.outcome = .ok (.ok image) := by decide +kernel
  obtain ⟨assembly, h, himage⟩ := map_eq_ok_iff.mp hrun
  obtain ⟨tree, root, symbols, hstages⟩ := exists_stages h himage
  -- the stages are evaluated: the labels with the words of the listing
  have hlisting : (stagesOf? source).map (fun (symbols, root) =>
      (symbols.entries, (Node.listing symbols .start root.children).map fun entry =>
        (entry.node.kind, entry.node.text, entry.words))) =
      some ([("x10", 0x3000#16)],
        [(.directive .orig, "orig", [0x3000#16]), (.labelDefinition, "x10", []),
          (.directive .fill, "fill", [5#16]), (.directive .fill, "fill", [0x10#16]),
          (.directive .endRegion, "end", [])]) := by
    decide +kernel
  have hoperands : (stagesOf? source).map (fun (_, root) => root.children.map fun node =>
      node.children.map fun operand => operand.token?.map fun word => (word.kind, word.text)) =
      some [[some (.word, "x3000")], [], [some (.number, "5")], [some (.word, "x10")], []] := by
    decide +kernel
  rw [hstages.stagesOf?_eq] at hlisting hoperands
  simp only [Option.map_some, Option.some.injEq, Prod.mk.injEq, List.map_eq_cons_iff,
    List.map_eq_nil_iff] at hlisting
  obtain ⟨hentries, origin, _, hnodes, -, label, _, rfl, ⟨hlabel, hname, -⟩, first, _, rfl, -,
    use, _, rfl, ⟨huse, -, hwords⟩, closing, _, rfl, -, rfl⟩ := hlisting
  have hroot : root.children = [origin.node, label.node, first.node, use.node, closing.node] := by
    rw [← Node.map_node_listing symbols .start root.children, hnodes]
    rfl
  have hoperand : use.node.children.map (fun operand =>
      operand.token?.map fun word => (word.kind, word.text)) = [some (.word, "x10")] := by
    simp only [Option.map_some, Option.some.injEq, hroot, List.map_cons, List.cons.injEq]
      at hoperands
    exact hoperands.2.2.2.1
  obtain ⟨operand, hchildren, hword⟩ := List.map_eq_singleton_iff.mp hoperand
  obtain ⟨word, htoken, hword⟩ := Option.map_eq_some_iff.mp hword
  obtain ⟨hkind, htext⟩ := Prod.mk.inj hword
  refine ⟨hrun, tree, root, symbols, hstages, ⟨label.node, by simp [hroot], hlabel, hname⟩,
    by simp [SymbolTable.lookup, hentries], use, by simp [hnodes], operand, word,
    .fill huse hchildren, htoken, hkind, htext, ?_⟩
  -- the entry holds the number instead
  rintro (⟨-, -, hother⟩ | ⟨hother, -⟩ | ⟨hother, -⟩)
  · rw [hwords] at hother
    exact absurd hother (by decide)
  · simp [huse] at hother
  · simp [huse] at hother

end Assembly

end LC3
