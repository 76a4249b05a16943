import LC3.Proofs.Binding
import LC3.Proofs.Loading
import Mathlib.Tactic.Common

namespace LC3

/-!
# Images, counters and symbol tables agree

Labels get their addresses in one walk over a program and words are emitted in another, each with a
counter of its own, while a loader knows only the words. The main statement of this file says that
the three of them agree on every address.

* `Assembly.addresses_agree` — for every source that assembles, the image is the listing of the
  program, each statement in it has the address at which a loader puts it, and each label has the
  address of the statement that it stands in front of.
-/

namespace Node

/-- The nodes that have an address for labels are `.ORIG` and those that place words. -/
theorem isAddressed_kind {node : Node} (h : Binder.isAddressed node.kind) :
    node.isOrigin ∨ node.isPlaced := by
  unfold Binder.isAddressed at h
  split at h
  case h_1 hkind => exact .inl (by simp [isOrigin, hkind])
  case h_2 directive _ hkind => exact .inr (by simpa [isPlaced, hkind] using h)
  case h_3 hkind => exact .inr (by simp [isPlaced, hkind])
  case h_4 => cases h

end Node

namespace Listing

/-- In a listing in which every entry is encoded, a `.ORIG` has its operand for an address. -/
theorem origin?_eq_address {symbols : SymbolTable} {counter : Counter} {nodes : List Node}
    {before after : List Entry} {entry : Entry}
    (h : Node.listing symbols counter nodes = before ++ entry :: after)
    (hemit : entry.node.emit entry.counter symbols = .ok entry.words)
    (horigin : entry.node.isOrigin) : entry.node.origin? = some entry.counter.address := by
  obtain ⟨value, hvalue, -, hstep⟩ := Node.emit_origin horigin hemit
  rw [hvalue, counter_eq h, hstep]

/-- What a listing says about an image and a symbol table. -/
structure Agrees (symbols : SymbolTable) (image : Image) (listing : List Entry) : Prop where
  /-- The image is the words of the entries in order. -/
  words : image.words = listing.flatMap Entry.words
  /-- The words of an entry are those that its node emits at its counter. -/
  encoded : ∀ entry ∈ listing, entry.node.emit entry.counter symbols = .ok entry.words
  /-- An entry that places words has the address at which a loader puts them. -/
  loads : ∀ before entry after, listing = before ++ entry :: after → entry.node.isPlaced →
    LoadsAt before entry.counter.address
  /-- Behind each label there is a first entry that is a `.ORIG` or places words, no `.END` comes
      before it, and the symbol table gives the label its address: the operand of the `.ORIG`, or
      the address at which a loader puts the words. -/
  labels : ∀ before label after, listing = before ++ label :: after →
    label.node.kind = .labelDefinition →
    ∃ between target behind, after = between ++ target :: behind ∧
      (∀ entry ∈ between, Binder.passes entry.node) ∧
      symbols.lookup label.node.text = some target.counter.address ∧
      (target.node.isOrigin ∧ target.node.origin? = some target.counter.address ∨
        target.node.isPlaced ∧ LoadsAt (before ++ label :: between) target.counter.address)

/-- When the analysis finds no error, a `.ORIG` precedes every entry that places words. -/
theorem exists_origin {symbols : SymbolTable} {counter : Counter} {root : Node}
    {before after : List Entry} {entry : Entry}
    (h : Node.listing symbols counter root.children = before ++ entry :: after)
    (hanalyzed : (Node.regionNotices .outside root.children).countP Notice.isError = 0)
    (hplaced : entry.node.isPlaced) : ∃ e ∈ before, e.node.isOrigin := by
  have hnodes : root.children = before.map Entry.node ++ entry.node :: after.map Entry.node := by
    rw [← Node.map_node_listing symbols counter root.children, h]
    simp
  rw [hnodes] at hanalyzed
  obtain ⟨origin, hmem, horigin⟩ := Node.exists_origin_of_isPlaced hanalyzed hplaced
  obtain ⟨e, he, rfl⟩ := List.mem_map.mp hmem
  exact ⟨e, he, horigin⟩

end Listing

namespace Assembly

/-- The notices of an analysis that succeeds hold for the tree that it makes. -/
theorem countP_regionNotices {tree root : Node} (h : tree.analyze.outcome = .ok root) :
    (Node.regionNotices .outside root.children).countP Notice.isError = 0 := by
  obtain ⟨herrors, -⟩ := StageResult.outcome_eq_ok_iff.mp h
  rw [Node.children_of_analyze h, Node.regionNotices_map_recordFormat]
  exact herrors

/-- An image is the words of the listing of its program, in which every entry is encoded. -/
theorem words_eq_flatMap_listing {source : String} {tree root : Node} {symbols : SymbolTable}
    {image : Image} (h : Stages source tree root symbols image) :
    image.words = (Node.listing symbols .start root.children).flatMap Listing.Entry.words ∧
      ∀ entry ∈ Node.listing symbols .start root.children,
        entry.node.emit entry.counter symbols = .ok entry.words := by
  obtain ⟨result, hencode, hresult⟩ := h.encoded
  obtain ⟨emitted, hemitted, hencode⟩ := bind_eq_ok_iff.mp hencode
  obtain ⟨herrors, hproduct⟩ := StageResult.outcome_eq_ok_iff.mp hresult
  cases hencode
  obtain ⟨hentries, hwords⟩ := Node.product_eq_flatMap_listing hemitted herrors
  exact ⟨by rw [← hproduct, ← hwords], hentries⟩

/-- The symbol table gives a label the address of the first entry behind it that has one. -/
theorem lookup_label {source : String} {tree root : Node} {symbols : SymbolTable} {image : Image}
    (h : Stages source tree root symbols image) {before after : List Listing.Entry}
    {label : Listing.Entry}
    (hlisting : Node.listing symbols .start root.children = before ++ label :: after)
    (hlabel : label.node.kind = .labelDefinition) :
    ∃ between target behind, after = between ++ target :: behind ∧
      (∀ entry ∈ between, Binder.passes entry.node) ∧ Binder.isAddressed target.node.kind ∧
      symbols.lookup label.node.text = some target.counter.address := by
  have hchildren : root.children =
      before.map Listing.Entry.node ++ label.node :: after.map Listing.Entry.node := by
    rw [← Node.map_node_listing symbols .start root.children, hlisting]
    simp
  obtain ⟨nodes, node, rest, hafter, hpasses, haddressed, hlookup⟩ :=
    SymbolTable.lookup_definition h.resolved hchildren hlabel
  obtain ⟨between, others, rfl, rfl, hothers⟩ := List.map_eq_append_iff.mp hafter
  obtain ⟨target, behind, rfl, rfl, rfl⟩ := List.map_eq_cons_iff.mp hothers
  refine ⟨between, target, behind, rfl, fun e he => hpasses _ (List.mem_map_of_mem he),
    haddressed, ?_⟩
  -- the address is that of the counter where the entry stands
  have htarget : Node.listing symbols .start root.children =
      (before ++ label :: between) ++ target :: behind := by
    rw [hlisting]
    simp
  rw [hlookup, Listing.counter_eq htarget]
  simp

/-- **Addresses agree.** A source that assembles has an image, a symbol table and a listing that
    agree on every address. -/
theorem addresses_agree {source : String} {diagnostics : Diagnostics} {assembly : Assembly}
    {image : Image} (h : assemble source diagnostics = .ok assembly)
    (himage : assembly.outcome = .ok image) :
    ∃ tree root symbols, Stages source tree root symbols image ∧
      Listing.Agrees symbols image (Node.listing symbols .start root.children) := by
  obtain ⟨tree, root, symbols, hstages⟩ := exists_stages h himage
  have hanalyzed := countP_regionNotices hstages.analyzed
  obtain ⟨hwords, hencoded⟩ := words_eq_flatMap_listing hstages
  -- what places words is loaded at its address, since a region is open there
  have hloads : ∀ before entry after,
      Node.listing symbols .start root.children = before ++ entry :: after →
      entry.node.isPlaced → Listing.LoadsAt before entry.counter.address :=
    fun before entry after hlisting hplaced =>
      Listing.loadsAt_address hlisting hencoded hplaced
        (Listing.exists_origin hlisting hanalyzed hplaced)
  refine ⟨tree, root, symbols, hstages, hwords, hencoded, hloads, ?_⟩
  -- a label has the address of the statement behind it, and that is where it is loaded
  intro before label after hlisting hlabel
  obtain ⟨between, target, behind, rfl, hbetween, haddressed, hlookup⟩ :=
    lookup_label hstages hlisting hlabel
  refine ⟨between, target, behind, rfl, hbetween, hlookup, ?_⟩
  have htarget : Node.listing symbols .start root.children =
      (before ++ label :: between) ++ target :: behind := by
    rw [hlisting]
    simp
  -- the statement may open the region itself, at its own address
  rcases Node.isAddressed_kind haddressed with horigin | hplaced
  · have hemit := hencoded target (by simp [htarget])
    exact .inl ⟨horigin, Listing.origin?_eq_address htarget hemit horigin⟩
  · exact .inr ⟨hplaced, hloads _ _ _ htarget hplaced⟩

/-- A program whose string runs over the end of memory, and in which labels share an address. -/
theorem addresses_agree_over_end :
    let source := ".orig xFFFE\nA\nB .stringz \"ab\"\nC .fill A\n.fill C\n.end"
    let image : Image := ⟨[0xFFFE#16, 0x61#16, 0x62#16, 0#16, 0xFFFE#16, 1#16]⟩
    (assemble source .empty).map Assembly.outcome = .ok (.ok image) ∧
      ∃ tree root symbols, Stages source tree root symbols image ∧
        Listing.Agrees symbols image (Node.listing symbols .start root.children) := by
  intro source image
  have hrun : (assemble source .empty).map Assembly.outcome = .ok (.ok image) := by decide +kernel
  obtain ⟨assembly, h, himage⟩ := map_eq_ok_iff.mp hrun
  exact ⟨hrun, addresses_agree h himage⟩

end Assembly

end LC3
