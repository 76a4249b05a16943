import LC3.Proofs.Loader

namespace LC3

/-!
# Labels inside regions

A label inside a region has the address of the next statement of the region that can place words.
That is where the word behind those of the region so far is loaded, and there is such a word unless
the statement is a `.BLKW` of no words and none behind it in the region places any.

* `Listing.Bounds` — what stands inside a region: behind a `.ORIG`, in front of the `.END` or of the
  end of the program.
* `Listing.PointsInside` — what is known of the address of a label.
* `Assembly.labels_inside` — the addresses of labels inside a region.
* `Assembly.label_outside_memory` — a label that points behind all words of its region.
-/

/-! ### Regions of a listing -/

/-- Some entries are all that stands inside the region that a `.ORIG` opens. -/
def Listing.Bounds (listing : List Listing.Entry) (origin : Listing.Entry)
    (inside : List Listing.Entry) : Prop :=
  ∃ front behind, listing = front ++ origin :: (inside ++ behind) ∧ origin.node.isOrigin ∧
    (∀ entry ∈ inside, entry.node.kind ≠ .directive .endRegion) ∧
    ∀ closing rest, behind = closing :: rest → closing.node.kind = .directive .endRegion

/-- A label inside a region has the address of the next statement of the region that can place
    words: that of the `.ORIG`, moved on by the words of the region in front of the label. -/
structure Listing.PointsInside (symbols : SymbolTable) (origin : Listing.Entry)
    (before : List Listing.Entry) (label : Listing.Entry) (after between : List Listing.Entry)
    (target : Listing.Entry) : Prop where
  /-- The statement is the first in the region behind the label that can place words. -/
  follows : ∃ rest, after = between ++ target :: rest
  passed : ∀ entry ∈ between, Binder.passes entry.node
  placed : target.node.isPlaced
  address : ∃ value, origin.words = [value] ∧ symbols.lookup label.node.text =
    some (value + BitVec.ofNat 16 (before.flatMap Listing.Entry.words).length)
  /-- If a word of the region follows the label, one of its words is loaded there. -/
  loaded : (∃ entry ∈ after, entry.words ≠ []) →
    (before.flatMap Listing.Entry.words).length <
      ((before ++ label :: after).flatMap Listing.Entry.words).length
  /-- Only a block of no words is a statement that can place words and does not. -/
  empty : target.words = [] → target.node.kind = .directive .blkw ∧ target.node.wordCount = 0#16

namespace Region

/-- A region stays open as long as no `.END` is met. -/
theorem foldl_after_inside {nodes : List Node} {origin? : Option Location}
    (h : ∀ node ∈ nodes, node.kind ≠ .directive .endRegion) :
    nodes.foldl after (inside origin?) = inside origin? := by
  induction nodes with
  | nil => rfl
  | cons node nodes ih =>
    simp only [List.mem_cons, forall_eq_or_imp] at h
    have hstay : after (inside origin?) node = inside origin? := by
      simp only [after]
      split
      case h_1 hkind => exact absurd hkind h.1
      case h_2 => rfl
    rw [List.foldl_cons, hstay]
    exact ih h.2

/-- Behind a `.ORIG` a region is open. -/
theorem exists_after_isOrigin (region : Region) {node : Node} (h : node.isOrigin) :
    ∃ origin?, region.after node = inside origin? := by
  have hkind : node.kind = .directive .orig := by simpa [Node.isOrigin] using h
  cases region <;> simp [after, hkind]

end Region

namespace Node

/-- When the analysis finds no error, no `.ORIG` stands inside a region. -/
theorem not_isOrigin_of_inside {front between after : List Node} {origin node : Node}
    (h : (regionNotices .outside
      (front ++ origin :: (between ++ node :: after))).countP Notice.isError = 0)
    (horigin : origin.isOrigin)
    (hbetween : ∀ other ∈ between, other.kind ≠ .directive .endRegion) : ¬ node.isOrigin := by
  intro hnode
  have hkind : node.kind = .directive .orig := by simpa [isOrigin] using hnode
  have hsplit : front ++ origin :: (between ++ node :: after) =
      (front ++ origin :: between) ++ node :: after := by simp
  rw [hsplit] at h
  have herror := error?_eq_none h
  -- the region that is open in front of the statement is that of the `.ORIG`
  obtain ⟨origin?, hopen⟩ :=
    Region.exists_after_isOrigin (front.foldl Region.after .outside) horigin
  rw [List.foldl_append, List.foldl_cons, hopen, Region.foldl_after_inside hbetween, hkind]
    at herror
  cases herror

/-- What neither is addressed nor ends a region has no words. -/
theorem emit_eq_nil_of_passes {node : Node} {counter : Counter} {symbols : SymbolTable}
    {words : List Word} (hpasses : Binder.passes node)
    (h : node.emit counter symbols = .ok words) : words = [] := by
  unfold emit at h
  split at h
  case h_1 hkind => simp [Binder.passes, Binder.isAddressed, hkind] at hpasses
  case h_2 directive hkind =>
    cases directive <;>
      simp [Binder.passes, Binder.isAddressed, Directive.isMemory, hkind] at hpasses
  case h_3 =>
    cases h
    rfl

/-- A statement that can place words and has none is a block of no words. -/
theorem kind_of_emit_eq_nil {node : Node} {counter : Counter} {symbols : SymbolTable}
    (hplaced : node.isPlaced) (h : node.emit counter symbols = .ok []) :
    node.kind = .directive .blkw ∧ node.wordCount = 0#16 := by
  -- what can place words sets no load address
  have horigin : ¬ node.isOrigin := by
    intro horigin
    have hkind : node.kind = .directive .orig := by simpa [isOrigin] using horigin
    simp [isPlaced, hkind, Directive.isMemory] at hplaced
  refine ⟨?_, by simpa using wordCount_eq_length horigin h⟩
  unfold emit at h
  split at h
  case h_1 =>
    -- an instruction has one word
    split at h
    case h_1 =>
      obtain ⟨word, -, hword⟩ := bind_eq_ok_iff.mp h
      cases hword
    case h_2 => cases h
  case h_2 directive hkind =>
    obtain ⟨-, -, operands, -, hencode⟩ := exists_operands_of_emitDirective h
    cases directive with
    | blkw => exact hkind
    | orig => exact absurd (by simp [isOrigin, hkind]) horigin
    | endRegion => simp [isPlaced, hkind, Directive.isMemory] at hplaced
    | fill =>
      cases operands <;> simp only [Directive.encode, reduceCtorEq] at hencode
      obtain ⟨word, -, hword⟩ := bind_eq_ok_iff.mp hencode
      cases hword
    | stringz =>
      cases operands <;> simp [Directive.encode, stringWords, pure, Except.pure] at hencode
  case h_3 hinstruction hdirective =>
    unfold isPlaced at hplaced
    split at hplaced
    case h_1 mnemonic format? flags? hkind => exact absurd hkind (hinstruction _ _ _)
    case h_2 directive hkind => exact absurd hkind (hdirective _)
    case h_3 => cases hplaced

end Node

/-! ### Addresses -/

/-- When the analysis finds no error, a region has no `.ORIG` but the one that opens it. -/
theorem Listing.Bounds.not_isOrigin {symbols : SymbolTable} {nodes : List Node}
    {origin : Listing.Entry} {inside : List Listing.Entry}
    (h : Listing.Bounds (Node.listing symbols .start nodes) origin inside)
    (hanalyzed : (Node.regionNotices .outside nodes).countP Notice.isError = 0) :
    ∀ entry ∈ inside, ¬ entry.node.isOrigin := by
  obtain ⟨front, behind, hlisting, horigin, hopen, -⟩ := h
  intro entry hentry
  obtain ⟨first, last, rfl⟩ := List.append_of_mem hentry
  -- the nodes in the region stand between its `.ORIG` and this one
  have hnodes : nodes = front.map Listing.Entry.node ++ origin.node ::
      (first.map Listing.Entry.node ++ entry.node ::
        (last ++ behind).map Listing.Entry.node) := by
    rw [← Node.map_node_listing symbols .start nodes, hlisting]
    simp
  rw [hnodes] at hanalyzed
  refine Node.not_isOrigin_of_inside hanalyzed horigin ?_
  intro node hnode
  obtain ⟨other, hother, rfl⟩ := List.mem_map.mp hnode
  exact hopen other (by simp [hother])

namespace Assembly

/-- The first entry behind a label that is addressed stands in the same region. -/
private theorem exists_inside {after behind between rest : List Listing.Entry}
    {target : Listing.Entry} (h : after ++ behind = between ++ target :: rest)
    (hbetween : ∀ entry ∈ between, Binder.passes entry.node)
    (haddressed : Binder.isAddressed target.node.kind)
    (hclosed : ∀ closing rest, behind = closing :: rest →
      closing.node.kind = .directive .endRegion) :
    ∃ last, after = between ++ target :: last := by
  -- otherwise the `.END` would stand in front of it, or be it
  rcases List.append_eq_append_iff.mp h with ⟨more, rfl, hbehind⟩ | ⟨more, rfl, htarget⟩
  · -- everything inside is passed, and the address is found behind it
    cases more with
    | nil =>
      rw [hclosed target rest hbehind] at haddressed
      cases haddressed
    | cons closing others =>
      have hpasses := hbetween closing (by simp)
      simp [Binder.passes, hclosed closing (others ++ target :: rest) hbehind] at hpasses
  · -- the address is found inside
    cases more with
    | nil =>
      rw [hclosed target rest htarget.symm] at haddressed
      cases haddressed
    | cons first others =>
      obtain ⟨rfl, -⟩ := List.cons.inj htarget
      exact ⟨others, rfl⟩

/-- **Labels point into their regions.** In a source that assembles, a label inside a region has the
    address of the next statement of the region that can place words. A word of the region is loaded
    there, unless no word of the region follows the label; then the statement is a `.BLKW` of no
    words. -/
theorem labels_inside {source : String} {diagnostics : Diagnostics} {assembly : Assembly}
    {image : Image} (h : assemble source diagnostics = .ok assembly)
    (himage : assembly.outcome = .ok image) :
    ∃ tree root symbols, Stages source tree root symbols image ∧
      image.words = (Node.listing symbols .start root.children).flatMap Listing.Entry.words ∧
      ∀ origin before label after,
        Listing.Bounds (Node.listing symbols .start root.children) origin
          (before ++ label :: after) →
        label.node.kind = .labelDefinition →
        ∃ between target,
          Listing.PointsInside symbols origin before label after between target := by
  obtain ⟨tree, root, symbols, hstages⟩ := exists_stages h himage
  have hanalyzed := countP_regionNotices hstages.analyzed
  obtain ⟨hwords, hencoded⟩ := words_eq_flatMap_listing hstages
  refine ⟨tree, root, symbols, hstages, hwords, ?_⟩
  intro origin before label after hbounds hlabel
  have hinside := hbounds.not_isOrigin hanalyzed
  obtain ⟨front, behind, hlisting, horigin, -, hclosed⟩ := hbounds
  -- the label is bound to a statement of its region
  have hlabelled : Node.listing symbols .start root.children =
      (front ++ origin :: before) ++ label :: (after ++ behind) := by
    rw [hlisting]
    simp
  obtain ⟨between, target, others, hafter, hbetween, haddressed, hlookup⟩ :=
    lookup_label hstages hlabelled hlabel
  obtain ⟨rest, rfl⟩ := exists_inside hafter hbetween haddressed hclosed
  -- no other region opens here, so the statement places words
  have hplaced : target.node.isPlaced := by
    rcases Node.isAddressed_kind haddressed with horigin | hplaced
    · exact absurd horigin (hinside target (by simp))
    · exact hplaced
  have htarget : Node.listing symbols .start root.children =
      front ++ origin :: ((before ++ label :: between) ++ target :: (rest ++ behind)) := by
    rw [hlisting]
    simp
  obtain ⟨value, -, hvalue, haddress⟩ := Listing.exists_address_eq htarget hencoded horigin
    (fun entry hentry => hinside entry (by simp at hentry ⊢; tauto)) hplaced
  -- neither the label nor what stands between it and the statement has words
  have hlabelWords : label.words = [] :=
    Node.emit_eq_nil_of_passes (by simp [Binder.passes, Binder.isAddressed, hlabel])
      (hencoded label (by simp [hlisting]))
  have hbetweenWords : between.flatMap Listing.Entry.words = [] := by
    rw [List.flatMap_eq_nil_iff]
    intro entry hentry
    exact Node.emit_eq_nil_of_passes (hbetween entry hentry)
      (hencoded entry (by simp [hlisting, hentry]))
  refine ⟨between, target, ⟨rest, rfl⟩, hbetween, hplaced, ⟨value, hvalue, ?_⟩, ?_, ?_⟩
  · -- the words in front of the label tell the address
    rw [hlookup, haddress]
    simp [hlabelWords, hbetweenWords]
  · -- some word behind the label is one of the region
    rintro ⟨entry, hentry, hne⟩
    have hsome : 0 < ((between ++ target :: rest).flatMap Listing.Entry.words).length := by
      refine List.length_pos_iff.mpr fun hnil => hne ?_
      exact List.flatMap_eq_nil_iff.mp hnil entry hentry
    rw [List.flatMap_append, List.length_append, List.flatMap_cons, List.length_append]
    omega
  · -- the statement has no word
    intro hnil
    have hemit := hencoded target (by simp [hlisting])
    rw [hnil] at hemit
    exact Node.kind_of_emit_eq_nil hplaced hemit

/-- Two labels in front of a block and one in front of a string, which runs over the end of
    memory. -/
theorem labels_inside_over_end :
    let source := ".orig xFFFE\nA\nB .blkw 1\nC .stringz \"a\"\n.end"
    let image : Image := ⟨[0xFFFE#16, 0#16, 0x61#16, 0#16]⟩
    (assemble source .empty).map Assembly.outcome = .ok (.ok image) ∧
      ∃ tree root symbols, Stages source tree root symbols image ∧
        image.words = (Node.listing symbols .start root.children).flatMap Listing.Entry.words ∧
        ∀ origin before label after,
          Listing.Bounds (Node.listing symbols .start root.children) origin
            (before ++ label :: after) →
          label.node.kind = .labelDefinition →
          ∃ between target,
            Listing.PointsInside symbols origin before label after between target := by
  intro source image
  have hrun : (assemble source .empty).map Assembly.outcome = .ok (.ok image) := by decide +kernel
  obtain ⟨assembly, h, himage⟩ := map_eq_ok_iff.mp hrun
  exact ⟨hrun, labels_inside h himage⟩

/-- A label in front of a block of no words, behind which the region ends: its address is that
    behind the only word of the region. -/
theorem label_outside_memory :
    let source := ".orig x3000\nHALT\nA .blkw 0\n.end"
    let image : Image := ⟨[0x3000#16, 0xF025#16]⟩
    (assemble source .empty).map Assembly.outcome = .ok (.ok image) ∧
      ∃ tree root symbols origin before label after, Stages source tree root symbols image ∧
        Listing.Bounds (Node.listing symbols .start root.children) origin
          (before ++ label :: after) ∧
        label.node.kind = .labelDefinition ∧ origin.words = [0x3000#16] ∧
        symbols.lookup label.node.text = some 0x3001#16 ∧
        ¬ ∃ i < ((before ++ label :: after).flatMap Listing.Entry.words).length,
          0x3001#16 = 0x3000#16 + BitVec.ofNat 16 i := by
  intro source image
  -- the listing of this source is evaluated, entry by entry
  have hrun : (assemble source .empty).map Assembly.outcome = .ok (.ok image) := by decide +kernel
  obtain ⟨assembly, h, himage⟩ := map_eq_ok_iff.mp hrun
  obtain ⟨tree, root, symbols, hstages⟩ := exists_stages h himage
  have hlisting : (stagesOf? source).map (fun (symbols, root) =>
      (symbols.entries, (Node.listing symbols .start root.children).map fun entry =>
        (entry.node.kind, entry.node.text, entry.words))) =
      some ([("A", 0x3001#16)],
        [(.directive .orig, "orig", [0x3000#16]),
          (.instruction .halt (some .empty) none, "HALT", [0xF025#16]),
          (.labelDefinition, "A", []), (.directive .blkw, "blkw", []),
          (.directive .endRegion, "end", [])]) := by
    decide +kernel
  rw [hstages.stagesOf?_eq] at hlisting
  simp only [Option.map_some, Option.some.injEq, Prod.mk.injEq, List.map_eq_cons_iff,
    List.map_eq_nil_iff] at hlisting
  obtain ⟨hentries, origin, _, hnodes, ⟨horigin, -, hvalue⟩, halt, _, rfl, ⟨hhalt, -, hword⟩,
    label, _, rfl, ⟨hlabel, hname, hnone⟩, block, _, rfl, ⟨hblock, -, hempty⟩,
    closing, _, rfl, ⟨hclosing, -, -⟩, rfl⟩ := hlisting
  refine ⟨hrun, tree, root, symbols, origin, [halt], label, [block], hstages,
    ⟨[], [closing], hnodes, by simp [Node.isOrigin, horigin], ?_, ?_⟩, hlabel, hvalue, ?_, ?_⟩
  · simp [hhalt, hlabel, hblock]
  · rintro _ _ ⟨⟩
    exact hclosing
  · simp [SymbolTable.lookup, hentries, hname]
  · simp [hword, hnone, hempty]

end Assembly

end LC3
