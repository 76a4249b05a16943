import LC3.Proofs.Loader
import LC3.Proofs.Lowered

namespace LC3

/-!
# Statements behind others

Statements behind others do not start with an empty counter, and labels have been bound before
them. None of this changes what they mean, if no region is open in front of them: words are only
placed behind a `.ORIG`, which sets the counter anew.

* `Counter.Agree` — counters that are the same inside of regions.
* `Counter.Agree.step` — what a statement that is right where it stands does to them.
* `Node.Emits` — the words of some statements, `Node.Emits.lowered` — wherever they stand.
* `Binder.Follows` — the labels of some statements behind others.
-/

/-! ### Counters -/

/-- A statement that is right outside of regions gives labels no address and leaves none without
    one, unless it opens a region. -/
theorem Binder.passes_of_outside {node : Node} (hplace : Region.outside.error? node.kind = none)
    (horigin : ¬ node.isOrigin) : passes node := by
  have haddressed : ¬ isAddressed node.kind := by
    intro haddressed
    rcases Node.isAddressed_kind haddressed with hkind | hplaced
    · exact horigin hkind
    · exact Region.error?_outside_ne_none hplaced hplace
  have hend : node.kind ≠ .directive .endRegion := by
    intro hkind
    simp [hkind, Region.error?] at hplace
  simp [passes, haddressed, hend]

namespace Counter

/-- Whether two counters agree as far as it matters in a region: outside of regions nothing has an
    address, and a `.ORIG` sets the counter anew. -/
def Agree (region : Region) (counter counter' : Counter) : Prop :=
  region ≠ .outside → counter = counter'

/-- The counter moves with a statement, not with the place of its source. -/
@[simp] theorem step_lowered (depth : Depth) (counter : Counter) (node : Node) :
    counter.step (node.lowered depth) = counter.step node := by
  have hhead : ((node.lowered depth).children.head?.map Node.kind) =
      node.children.head?.map Node.kind := by
    rw [Node.children_lowered]
    cases node.children with
    | nil => rfl
    | cons first _ => exact congrArg some (first.kind_lowered depth)
  simp only [step, Node.wordCount, Node.kind_lowered, hhead]

/-- A `.ORIG` with its operand sets the counter to it, whatever it was. -/
theorem step_eq_of_orig {node : Node} (counter counter' : Counter) (horigin : node.isOrigin)
    (hformat : node.formatError? = none) : counter.step node = counter'.step node := by
  have hkind := Node.isOrigin_iff.mp horigin
  obtain ⟨operand, value, hchildren, hvalue⟩ := Node.exists_number_of_isOrigin horigin hformat
  simp [step, hkind, hchildren, hvalue]

/-- **A statement that is right where it stands** keeps counters in agreement, and has the same
    address by both if it has one. -/
theorem Agree.step {region : Region} {node : Node} {counter counter' : Counter}
    (h : Agree region counter counter') (hplace : region.error? node.kind = none)
    (hformat : node.formatError? = none) :
    Agree (region.after node) (counter.step node) (counter'.step node) ∧
      (Binder.isAddressed node.kind → counter.step node = counter'.step node) := by
  cases region with
  | inside origin? =>
    obtain rfl := h Region.noConfusion
    exact ⟨fun _ => rfl, fun _ => rfl⟩
  | outside =>
    by_cases horigin : node.isOrigin
    · have hstep := step_eq_of_orig counter counter' horigin hformat
      exact ⟨fun _ => hstep, fun _ => hstep⟩
    · have hafter := Region.after_outside horigin
      refine ⟨fun hinside => absurd hafter hinside, fun haddressed => ?_⟩
      have hpasses := Binder.passes_of_outside hplace horigin
      simp [Binder.passes, haddressed] at hpasses

end Counter

/-! ### Words -/

namespace Node

/-- Whether some statements are encoded without an error, behind a counter, and as which words. -/
inductive Emits (symbols : SymbolTable) : Counter → List Node → List Word → Prop where
  | nil {counter : Counter} : Emits symbols counter [] []
  | cons {counter : Counter} {node : Node} {nodes : List Node} {words more : List Word}
    (hnode : node.emit (counter.step node) symbols = .ok words)
    (hrest : Emits symbols (counter.step node) nodes more) :
    Emits symbols counter (node :: nodes) (words ++ more)

/-- Only words that have an address can depend on it. -/
theorem emit_congr {node : Node} {counter counter' : Counter} (symbols : SymbolTable)
    (h : Binder.isAddressed node.kind → counter = counter') :
    node.emit counter symbols = node.emit counter' symbols := by
  unfold emit
  split
  case h_1 hkind => rw [h (by rw [hkind]; rfl)]
  case h_2 => rfl
  case h_3 => rfl

namespace Emits

variable {symbols symbols' : SymbolTable} {counter counter' : Counter} {nodes rest : List Node}
  {words more : List Word}

/-- Statements behind others start with the counter that those leave. -/
theorem append (h : Emits symbols counter nodes words)
    (h' : Emits symbols (nodes.foldl Counter.step counter) rest more) :
    Emits symbols counter (nodes ++ rest) (words ++ more) := by
  induction h with
  | nil => exact h'
  | cons hnode _ ih =>
    rw [List.cons_append, List.append_assoc]
    exact .cons hnode (ih h')

/-- What encoding finds without an error are the words. -/
theorem exists_emitAll_iff :
    (∃ result, emitAll symbols counter nodes = .ok result ∧ result.errors = 0 ∧
      result.product = words) ↔ Emits symbols counter nodes words := by
  constructor
  · rintro ⟨result, hemitted, hnone, rfl⟩
    -- the statements are encoded from the last one on, so the induction goes from the first to the
    -- rest
    induction nodes generalizing counter result with
    | nil =>
      cases hemitted
      exact .nil
    | cons node nodes ih =>
      obtain ⟨rest, hrest, hemitted⟩ := bind_eq_ok_iff.mp hemitted
      cases hemit : node.emit (counter.step node) symbols with
      | ok words =>
        rw [hemit] at hemitted
        cases hemitted
        exact .cons hemit (ih rest hrest hnone)
      | error reason =>
        rw [hemit] at hemitted
        cases reason with
        | breach breach => cases hemitted
        | fault fault =>
          -- a fault is an error of the stage
          cases hemitted
          simp [StageResult.errors, Notice.isError, AssemblyFault.notice] at hnone
  · intro h
    induction h with
    | nil => exact ⟨_, rfl, rfl, rfl⟩
    | @cons counter node nodes words more hnode _ ih =>
      obtain ⟨rest, hrest, hnone, rfl⟩ := ih
      refine ⟨⟨words ++ rest.product, rest.notices,
        node.emitLog (counter.step node) words ++ rest.log⟩,
        bind_eq_ok_iff.mpr ⟨rest, hrest, ?_⟩, hnone, rfl⟩
      rw [hnode]
      rfl

/-- **Words stay the same behind other statements**, further down and with a larger symbol table,
    if nothing is wrong with the statements where they stand. -/
theorem lowered (depth : Depth) {region : Region} (h : Emits symbols counter nodes words)
    (hsymbols : symbols.Within symbols') (hagree : counter.Agree region counter')
    (hregion : (regionNotices region nodes).countP Notice.isError = 0) :
    Emits symbols' counter' (nodes.map (lowered depth)) words := by
  induction h generalizing region counter' with
  | nil => exact .nil
  | @cons counter node nodes words more hnode _ ih =>
    obtain ⟨hplace, hformat, hrest⟩ := countP_regionNotices_cons_iff.mp hregion
    -- behind the first statement the counters agree again, and at it they do if its words depend on
    -- them
    obtain ⟨hbehind, haddress⟩ := hagree.step hplace hformat
    rw [← counter'.step_lowered depth] at hbehind haddress
    refine .cons ?_ (ih hbehind hrest)
    rw [← emit_congr symbols' fun h => haddress (by rwa [kind_lowered] at h)]
    exact emit_lowered hsymbols hnode

/-- A program is encoded without an error exactly if its statements are, and the image is made of
    their words. -/
theorem exists_encode_iff {root : Node} {image : Image} :
    (∃ result, root.encode symbols = .ok result ∧ result.outcome = .ok image) ↔
      Emits symbols .start root.children image.words := by
  rw [← exists_emitAll_iff]
  constructor
  · rintro ⟨result, hencode, hout⟩
    obtain ⟨emitted, hemitted, hencode⟩ := bind_eq_ok_iff.mp hencode
    obtain ⟨hnone, rfl⟩ := StageResult.outcome_eq_ok_iff.mp hout
    cases hencode
    exact ⟨emitted, hemitted, hnone, rfl⟩
  · rintro ⟨emitted, hemitted, hnone, hwords⟩
    refine ⟨_, bind_eq_ok_iff.mpr ⟨emitted, hemitted, rfl⟩, StageResult.outcome_eq_ok_iff.mpr
      ⟨hnone, ?_⟩⟩
    show Image.mk emitted.product = image
    rw [hwords]

end Emits

end Node

/-! ### Labels -/

namespace Binder

variable {depth : Depth} {front : List (String × Word)} {region : Region} {alone behind : Binder}

/-- How a walk over statements behind others goes along with one over the same statements alone:
    it has bound the labels in front before, and otherwise keeps the same labels. -/
structure Follows (depth : Depth) (front : List (String × Word)) (region : Region)
    (alone behind : Binder) : Prop where
  counter : alone.counter.Agree region behind.counter
  pending : behind.pending = alone.pending.map (Node.lowered depth)
  bound : behind.bound = front ++ alone.bound
  dangling : behind.dangling = alone.dangling.map (Node.lowered depth)

/-- Both walks do the same to their labels at a statement that is right where it stands. -/
theorem Follows.visit {node : Node} (h : Follows depth front region alone behind)
    (hplace : region.error? node.kind = none) (hformat : node.formatError? = none) :
    Follows depth front (region.after node) (alone.visit node)
      (behind.visit (node.lowered depth)) := by
  obtain ⟨hcounter, haddress⟩ := h.counter.step hplace hformat
  rw [← behind.counter.step_lowered depth] at hcounter haddress
  have hkind : (node.lowered depth).kind = node.kind := node.kind_lowered depth
  -- a region ends, the statement takes a word, or it is passed: the same further down
  rcases visit_kinds node with hend | haddressed | hpasses
  · have hend' : (node.lowered depth).kind = .directive .endRegion := hkind.trans hend
    rw [visit_endRegion _ hend, visit_endRegion _ hend']
    refine ⟨hcounter, rfl, h.bound, ?_⟩
    rw [h.dangling, h.pending, List.map_append]
  · have haddressed' : isAddressed (node.lowered depth).kind := by rwa [hkind]
    rw [visit_isAddressed _ haddressed, visit_isAddressed _ haddressed', ← haddress haddressed]
    refine ⟨fun _ => rfl, rfl, ?_, h.dangling⟩
    simp only [h.bound, h.pending, List.map_map, List.append_assoc, Function.comp_def,
      Node.text_lowered]
  · have hpasses' : passes (node.lowered depth) := by
      unfold passes at hpasses ⊢
      rwa [hkind]
    rw [visit_passes _ hpasses, visit_passes _ hpasses']
    refine ⟨hcounter, ?_, h.bound, h.dangling⟩
    rw [h.pending, List.map_append, ← List.map_singleton, Node.filter_kind_lowered]

/-- **Labels stay the same behind other statements**, if nothing is wrong with the statements where
    they stand. -/
theorem Follows.foldl_visit {nodes : List Node} (h : Follows depth front region alone behind)
    (hregion : (Node.regionNotices region nodes).countP Notice.isError = 0) :
    Follows depth front (nodes.foldl Region.after region) (nodes.foldl Binder.visit alone)
      ((nodes.map (Node.lowered depth)).foldl Binder.visit behind) := by
  induction nodes generalizing region alone behind with
  | nil => exact h
  | cons node nodes ih =>
    obtain ⟨hplace, hformat, hrest⟩ := Node.countP_regionNotices_cons_iff.mp hregion
    exact ih (h.visit hplace hformat) hrest

end Binder

end LC3
