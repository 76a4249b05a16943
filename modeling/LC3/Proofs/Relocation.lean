import LC3.Proofs.Origins
import LC3.Proofs.TreeRuns

namespace LC3

/-!
# Position independence

When the load addresses of a program move by a distance, all its labels do, modulo the size of
memory. The distances between them stay, and with them the words of the instructions that name
addresses by labels; words that are addresses move along.

* `Counter.Apart`, `Binder.Apart` — the counter and the labels of a program further on in memory.
* `SymbolTable.exists_build_moved` — its symbol table.
* `Node.movedWords` — the words of a statement further on in memory, `Node.emit_moved`.
* `Node.Assembles.moved` — programs whose load addresses move by a distance.
* `Node.position_independent` — programs with one load address, and with any other.
-/

/-! ### Counters -/

namespace Counter

/-- The same counter further on in memory. -/
def moved (distance : Word) (counter : Counter) : Counter :=
  ⟨counter.address + distance, counter.next + distance⟩

/-- Whether a counter is another one further on, as far as it matters: outside of regions nothing
    has an address, and a `.ORIG` sets the counter anew. -/
def Apart (distance : Word) (region : Region) (counter counter' : Counter) : Prop :=
  region ≠ .outside → counter' = counter.moved distance

variable {distance : Word} {region : Region} {node : Node} {counter counter' : Counter}

/-- The counter goes on by the same number of words wherever it is. -/
theorem step_moved (h : ¬ node.isOrigin) :
    (counter.moved distance).step node = (counter.step node).moved distance := by
  have hnext : ∀ count : Word,
      counter.next + distance + count = counter.next + count + distance := by
    intro count
    rw [BitVec.add_assoc, BitVec.add_comm distance, ← BitVec.add_assoc]
  unfold step
  split
  case h_1 hkind => exact absurd (Node.isOrigin_iff.mpr hkind) h
  case h_2 | h_3 => simp only [moved, hnext]
  case h_4 => rfl

/-- A load address that is moved moves the counter, whatever it was. -/
theorem step_moveOrigin (counter counter' : Counter) (horigin : node.isOrigin)
    (hformat : node.formatError? = none) :
    counter'.step (node.moveOrigin (· + distance)) = (counter.step node).moved distance := by
  have hkind := Node.isOrigin_iff.mp horigin
  obtain ⟨operand, value, hchildren, hvalue⟩ := Node.exists_number_of_isOrigin horigin hformat
  rw [Node.moveOrigin_of_isOrigin horigin]
  simp [step, moved, hkind, hchildren, hvalue, Node.moveNumber]

/-- **A statement that is right where it stands** keeps counters apart, and has an address that is
    moved if it has one. -/
theorem Apart.step (h : Apart distance region counter counter')
    (hplace : region.error? node.kind = none) (hformat : node.formatError? = none) :
    Apart distance (region.after node) (counter.step node)
        (counter'.step (node.moveOrigin (· + distance))) ∧
      (Binder.isAddressed node.kind →
        counter'.step (node.moveOrigin (· + distance)) = (counter.step node).moved distance) := by
  by_cases horigin : node.isOrigin
  · -- the load address is set anew in both programs, so it does not matter what precedes it
    have hstep : counter'.step (node.moveOrigin (· + distance)) =
        (counter.step node).moved distance := step_moveOrigin counter counter' horigin hformat
    exact ⟨fun _ => hstep, fun _ => hstep⟩
  · -- any other statement is the same in both, and counted for as many words
    rw [Node.moveOrigin_of_not_isOrigin horigin]
    cases region with
    | inside origin? =>
      obtain rfl := h Region.noConfusion
      exact ⟨fun _ => step_moved horigin, fun _ => step_moved horigin⟩
    | outside =>
      -- nothing but a `.ORIG` has an address here, and the region stays closed
      have hafter := Region.after_outside horigin
      refine ⟨fun hinside => absurd hafter hinside, fun haddressed => ?_⟩
      have hpasses := Binder.passes_of_outside hplace horigin
      simp [Binder.passes, haddressed] at hpasses

end Counter

/-! ### Labels -/

namespace Binder

variable {distance : Word} {region : Region} {binder binder' : Binder} {node : Node}
  {nodes : List Node}

/-- The same walk further on in memory: its labels have addresses that are moved. -/
structure Apart (distance : Word) (region : Region) (binder binder' : Binder) : Prop where
  counter : binder.counter.Apart distance region binder'.counter
  pending : binder'.pending = binder.pending
  bound : binder'.bound = binder.bound.map (Prod.map id (· + distance))
  dangling : binder'.dangling = binder.dangling

/-- A statement that is right where it stands does the same to labels further on in memory. -/
theorem Apart.visit (h : Apart distance region binder binder')
    (hplace : region.error? node.kind = none) (hformat : node.formatError? = none) :
    Apart distance (region.after node) (binder.visit node)
      (binder'.visit (node.moveOrigin (· + distance))) := by
  obtain ⟨hcounter, haddress⟩ := h.counter.step hplace hformat
  have hkind := node.kind_moveOrigin (· + distance)
  rcases visit_kinds node with hend | haddressed | hpasses
  · -- the region ends, and with it what waits
    have hend' := hkind.trans hend
    rw [visit_endRegion _ hend, visit_endRegion _ hend']
    refine ⟨hcounter, rfl, h.bound, ?_⟩
    rw [h.dangling, h.pending]
  · -- the labels that wait are bound to addresses that differ by the distance
    have haddressed' : isAddressed (node.moveOrigin (· + distance)).kind := by rwa [hkind]
    rw [visit_isAddressed _ haddressed, visit_isAddressed _ haddressed']
    refine ⟨hcounter, rfl, ?_, h.dangling⟩
    rw [h.bound, h.pending, haddress haddressed, List.map_append, List.map_map]
    rfl
  · -- a `.ORIG` has an address, so this node is the same in both programs
    have horigin : ¬ node.isOrigin := by
      intro horigin
      simp [passes, Node.isOrigin_iff.mp horigin, isAddressed] at hpasses
    rw [Node.moveOrigin_of_not_isOrigin horigin] at hcounter ⊢
    rw [visit_passes _ hpasses, visit_passes _ hpasses]
    refine ⟨hcounter, ?_, h.bound, h.dangling⟩
    rw [h.pending]

/-- **Labels move along with their program.** -/
theorem Apart.foldl_visit (h : Apart distance region binder binder')
    (hregion : (Node.regionNotices region nodes).countP Notice.isError = 0) :
    Apart distance (nodes.foldl Region.after region) (nodes.foldl Binder.visit binder)
      ((nodes.map (Node.moveOrigin (· + distance))).foldl Binder.visit binder') := by
  induction nodes generalizing region binder binder' with
  | nil => exact h
  | cons node nodes ih =>
    obtain ⟨hplace, hformat, hrest⟩ := Node.countP_regionNotices_cons_iff.mp hregion
    exact ih (h.visit hplace hformat) hrest

end Binder

namespace SymbolTable

/-- Whether a symbol table has the same labels as another one, further on in memory. -/
def Apart (distance : Word) (symbols symbols' : SymbolTable) : Prop :=
  ∀ name, symbols'.lookup name = (symbols.lookup name).map (· + distance)

/-- Looking a name up finds the value that has been changed. -/
private theorem lookup_map_snd {entries : List (String × Word)} (change : Word → Word)
    (name : String) :
    (entries.map (Prod.map id change)).lookup name = (entries.lookup name).map change := by
  induction entries with
  | nil => rfl
  | cons entry entries ih =>
    rw [List.map_cons, List.lookup_cons, List.lookup_cons, ih, Prod.map_fst, id_eq]
    cases name == entry.1 <;> rfl

/-- The symbol table of a program further on in memory. -/
theorem exists_build_moved {root : Node} {symbols : SymbolTable}
    (h : (build root).outcome = .ok symbols)
    (hregion : (Node.regionNotices .outside root.children).countP Notice.isError = 0)
    (distance : Word) :
    ∃ symbols', (build (root.moveOrigins (· + distance))).outcome = .ok symbols' ∧
      symbols.Apart distance symbols' := by
  obtain ⟨hnames, hdangling, rfl⟩ := outcome_build_eq_ok h
  -- both walks start with the same counter, which does not count outside of regions
  have hstart : Binder.Apart distance .outside .start .start :=
    ⟨fun hinside => absurd rfl hinside, rfl, rfl, rfl⟩
  have hapart := hstart.foldl_visit hregion
  have hdangling' : (Binder.ofProgram (root.moveOrigins (· + distance))).dangling = [] := by
    rw [Binder.dangling_ofProgram_eq_nil_iff] at hdangling ⊢
    exact ⟨hapart.dangling.trans hdangling.1, hapart.pending.trans hdangling.2⟩
  have hbound : (Binder.ofProgram (root.moveOrigins (· + distance))).bound =
      (Binder.ofProgram root).bound.map (Prod.map id (· + distance)) := hapart.bound
  -- labels are distinct, so each table is the list of what was bound
  have hnodup : ((Binder.ofProgram root).bound.map Prod.fst).Nodup :=
    (Node.nameNotices_eq_nil_iff.mp hnames).1.sublist (Binder.bound_ofProgram_sublist root)
  have hnodup' : (((Binder.ofProgram root).bound.map (Prod.map id (· + distance))).map
      Prod.fst).Nodup := by
    rw [List.map_map]
    exact hnodup
  refine ⟨_, outcome_build (Node.nameNotices_moveOrigins_eq_nil hnames) hdangling', ?_⟩
  intro name
  rw [hbound, lookup, lookup, entries_ofList hnodup, entries_ofList hnodup', ← List.map_reverse,
    lookup_map_snd]

end SymbolTable

/-! ### Words -/

section Addresses

variable {symbols symbols' : SymbolTable} {distance : Word}
  (hsymbols : symbols.Apart distance symbols')

include hsymbols

/-- Labels have addresses that are moved. -/
theorem Address.resolve_label_moved (name : String) (location? : Option Location) :
    (label name location?).resolve symbols' =
      ((label name location?).resolve symbols).map (· + distance) := by
  rw [resolve, resolve, hsymbols name]
  cases symbols.lookup name <;> rfl

/-- Distances to labels stay. -/
theorem Address.distance_label_moved (name : String) (location? : Option Location) (width : Width)
    (next : Word) : (label name location?).distance width (next + distance) symbols' =
      (label name location?).distance width next symbols := by
  unfold Address.distance
  rw [resolve_label_moved hsymbols]
  cases (label name location?).resolve symbols with
  | error error => dsimp only [Except.map, bind, Except.bind]
  | ok address =>
    have hsame : address + distance - (next + distance) = address - next := by
      rw [BitVec.sub_eq_iff_eq_add, ← BitVec.add_assoc, BitVec.sub_add_cancel]
    dsimp only [Except.map, bind, Except.bind]
    rw [hsame]

/-- The address that an operand stands for moves along if it is that of a label. -/
theorem Address.resolve_moved {operand : Node} {address : Address} {value : Word}
    (haddress : operand.address? = some address) (h : address.resolve symbols = .ok value) :
    address.resolve symbols' =
      .ok (if operand.kind = .labelReference then value + distance else value) := by
  cases hkind : operand.kind with
  | number number =>
    rw [Node.address?, hkind] at haddress
    obtain rfl := Option.some.inj haddress
    rw [if_neg (by simp)]
    exact h
  | labelReference =>
    rw [Node.address?, hkind] at haddress
    obtain rfl := Option.some.inj haddress
    rw [if_pos rfl, resolve_label_moved hsymbols, h, Except.map]
  | _ => simp [Node.address?, hkind] at haddress

end Addresses

namespace Node

variable {node : Node} {nodes : List Node} {region : Region} {distance : Word}
  {counter counter' : Counter} {symbols symbols' : SymbolTable} {words : List Word}

/-- Whether a statement names by a label the address that it measures the distance to, if it is an
    instruction that does so. -/
def AimsAtLabels (node : Node) : Prop :=
  ∀ mnemonic format? flags? operand width, node.kind = .instruction mnemonic format? flags? →
    mnemonic.Measures node.children operand width → Operand.address.accepts operand.kind →
      operand.kind = .labelReference

/-- The words of a statement when its program is moved: a load address and the addresses of labels
    move along, and other words stay. -/
def movedWords (distance : Word) (node : Node) (words : List Word) : List Word :=
  if node.isOrigin || node.holdsLabel then words.map (· + distance) else words

/-- Words are only changed, none is added. -/
@[simp] theorem length_movedWords (distance : Word) (node : Node) (words : List Word) :
    (node.movedWords distance words).length = words.length := by
  unfold movedWords
  split <;> simp

/-- A statement that neither sets a load address nor holds a label keeps its words. -/
theorem movedWords_of_plain (horigin : ¬ node.isOrigin) (hlabel : node.holdsLabel = false) :
    node.movedWords distance words = words := by
  simp [movedWords, horigin, hlabel]

/-- Instructions that name addresses by labels keep their words. -/
theorem emit_moved_of_instruction {mnemonic : Mnemonic} {format? : Option Format}
    {flags? : Option Flags} (hkind : node.kind = .instruction mnemonic format? flags?)
    (hown : node.RecordsOwnFormat) (hformat : node.formatError? = none)
    (haims : node.AimsAtLabels) (hsymbols : symbols.Apart distance symbols') :
    node.emit (counter.moved distance) symbols' = node.emit counter symbols := by
  cases fills_of_instruction hkind hown hformat with
  | @distance operand address width high hmeasures haddress hemit =>
    -- the label and the place that the distance is measured from move together
    have haccepts := accepts_of_address? haddress
    have hlabel := haims _ _ _ operand width hkind hmeasures haccepts
    rw [address?, hlabel] at haddress
    obtain rfl := Option.some.inj haddress
    rw [hemit, hemit, Counter.moved, Address.distance_label_moved hsymbols]
  -- a number, or registers only, do not depend on where the program is
  | number hpacks hliteral hemit => rw [hemit, hemit]
  | fixed hemit => rw [hemit, hemit]

/-- Words that are the address of an operand move along if the operand is a label. -/
private theorem movedWords_replicate {operand : Node} (horigin : ¬ node.isOrigin)
    (hlabel : node.holdsLabel = decide (operand.kind = .labelReference)) (count : Nat)
    (value : Word) : node.movedWords distance (List.replicate count value) =
      List.replicate count
        (if operand.kind = .labelReference then value + distance else value) := by
  by_cases hoperand : operand.kind = .labelReference
  · simp [movedWords, hlabel, hoperand]
  · simp [movedWords, hlabel, hoperand, horigin]

/-- Directives that place words hold addresses that move along, if they are those of labels. -/
theorem emitDirective_moved {directive : Directive} (hkind : node.kind = .directive directive)
    (hformat : node.formatError? = none) (horigin : ¬ node.isOrigin)
    (h : node.emitDirective directive symbols = .ok words)
    (hsymbols : symbols.Apart distance symbols') :
    node.emitDirective directive symbols' = .ok (node.movedWords distance words) := by
  cases stores_of_directive hkind hformat with
  | @address operand address count _ haddress hlabel hemit =>
    rw [hemit] at h ⊢
    obtain ⟨value, hvalue, rfl⟩ := map_eq_ok_iff.mp h
    rw [Address.resolve_moved hsymbols haddress hvalue, movedWords_replicate horigin hlabel]
    rfl
  | fixed hlabel hemit =>
    rw [hemit] at h ⊢
    rw [movedWords_of_plain horigin hlabel, h]

/-- The word of a `.ORIG` is its operand. -/
theorem emit_of_isOrigin {operand : Node} {value : Word} (horigin : node.isOrigin)
    (hchildren : node.children = [operand]) (hvalue : operand.kind = .number value)
    (counter : Counter) (symbols : SymbolTable) : node.emit counter symbols = .ok [value] := by
  have hread : Format.readFirst? Directive.orig.formats node.children =
      some (.number ⟨value, operand.location?⟩) := by
    simp [Format.readFirst?, Directive.formats, hchildren, Format.read?, literal?, hvalue]
  rw [emit, isOrigin_iff.mp horigin]
  simp only [emitDirective, hread]
  rfl

/-- **Words of a program that is moved**: load addresses and the addresses of labels move along, and
    the others stay. -/
theorem emit_moved (hown : node.RecordsOwnFormat) (hformat : node.formatError? = none)
    (haims : node.AimsAtLabels) (hsymbols : symbols.Apart distance symbols')
    (hcounter : Binder.isAddressed node.kind → counter' = counter.moved distance)
    (h : node.emit counter symbols = .ok words) :
    (node.moveOrigin (· + distance)).emit counter' symbols' =
      .ok (node.movedWords distance words) := by
  by_cases horigin : node.isOrigin
  · -- the operand is the word that is emitted, and it has been moved
    obtain ⟨operand, value, hchildren, hvalue⟩ := exists_number_of_isOrigin horigin hformat
    rw [emit_of_isOrigin horigin hchildren hvalue] at h
    obtain rfl := Except.ok.inj h
    have hmoved : (node.moveOrigin (· + distance)).children =
        [operand.moveNumber (· + distance)] := by
      rw [moveOrigin_of_isOrigin horigin, hchildren]
      rfl
    have hvalue' : (operand.moveNumber (· + distance)).kind = .number (value + distance) := by
      simp [moveNumber, hvalue]
    rw [emit_of_isOrigin (by rwa [isOrigin_moveOrigin]) hmoved hvalue']
    simp [movedWords, horigin]
  · rw [moveOrigin_of_not_isOrigin horigin]
    cases hkind : node.kind with
    | instruction mnemonic format? flags? =>
      obtain rfl := hcounter (by rw [hkind]; rfl)
      rw [emit_moved_of_instruction hkind hown hformat haims hsymbols, h,
        movedWords_of_plain horigin (by simp [holdsLabel, hkind])]
    | directive directive =>
      have hemit : ∀ counter symbols,
          node.emit counter symbols = node.emitDirective directive symbols := by
        intro counter symbols
        rw [emit, hkind]
      rw [hemit] at h ⊢
      exact emitDirective_moved hkind hformat horigin h hsymbols
    | _ =>
      rw [movedWords_of_plain horigin (by simp [holdsLabel, hkind]), ← h]
      simp only [emit, hkind]

/-! ### Programs -/

/-- The words of some statements are those of their listing. -/
theorem Emits.words_eq (h : Emits symbols counter nodes words) :
    words = (listing symbols counter nodes).flatMap Listing.Entry.words := by
  induction h with
  | nil => rfl
  | cons hnode _ ih => simp [listing, wordsAt, hnode, ← ih]

/-- **Words move along with their program.** -/
theorem Emits.moved (h : Emits symbols counter nodes words)
    (hcounter : counter.Apart distance region counter')
    (hregion : (regionNotices region nodes).countP Notice.isError = 0)
    (hown : ∀ node ∈ nodes, node.RecordsOwnFormat) (haims : ∀ node ∈ nodes, node.AimsAtLabels)
    (hsymbols : symbols.Apart distance symbols') :
    Emits symbols' counter' (nodes.map (moveOrigin (· + distance)))
      ((listing symbols counter nodes).flatMap fun entry =>
        entry.node.movedWords distance entry.words) := by
  induction h generalizing region counter' with
  | nil => exact .nil
  | @cons counter node nodes words more hnode _ ih =>
    obtain ⟨hplace, hformat, hrest⟩ := countP_regionNotices_cons_iff.mp hregion
    obtain ⟨hbehind, haddress⟩ := hcounter.step hplace hformat
    obtain ⟨hown, hown'⟩ := List.forall_mem_cons.mp hown
    obtain ⟨haims, haims'⟩ := List.forall_mem_cons.mp haims
    have hwords : node.wordsAt (counter.step node) symbols = words := by
      rw [wordsAt, hnode]
    simp only [listing, List.map_cons, List.flatMap_cons, hwords]
    exact .cons (emit_moved hown hformat haims hsymbols haddress hnode)
      (ih hbehind hrest hown' haims')

/-- A node that neither has an address nor ends a region has no words. -/
theorem emit_of_passes (h : Binder.passes node) (counter : Counter) (symbols : SymbolTable) :
    node.emit counter symbols = .ok [] := by
  cases hkind : node.kind with
  | instruction => simp [Binder.passes, hkind, Binder.isAddressed] at h
  | directive directive =>
    cases directive <;>
      simp [Binder.passes, hkind, Binder.isAddressed, Directive.isMemory] at h
  | _ => simp only [emit, hkind, pure, Except.pure]

/-- Nothing precedes the first load address, so it is the first word. -/
theorem Emits.head?_eq {address : Word} (h : Emits symbols counter nodes words)
    (hregion : (regionNotices .outside nodes).countP Notice.isError = 0)
    (horigin : ∃ node ∈ nodes, node.isOrigin)
    (haddress : ∀ node ∈ nodes, node.isOrigin → node.origin? = some address) :
    words.head? = some address := by
  induction h with
  | nil => simp at horigin
  | @cons counter node nodes words more hnode _ ih =>
    obtain ⟨hplace, hformat, hrest⟩ := countP_regionNotices_cons_iff.mp hregion
    obtain ⟨hfirst, haddress⟩ := List.forall_mem_cons.mp haddress
    by_cases hopens : node.isOrigin
    · obtain ⟨value, hvalue, rfl, -⟩ := emit_origin hopens hnode
      have hsame := hvalue.symm.trans (hfirst hopens)
      simpa using hsame
    · -- what stands in front of the `.ORIG` has no words and opens no region
      rw [emit_of_passes (Binder.passes_of_outside hplace hopens)] at hnode
      obtain rfl := Except.ok.inj hnode
      rw [Region.after_outside hopens] at hrest
      have horigin : ∃ node ∈ nodes, node.isOrigin := by
        simpa [hopens] using horigin
      exact ih hrest horigin haddress

/-- Recording formats does not change what a statement aims at. -/
theorem AimsAtLabels.recordFormat (h : node.AimsAtLabels) : node.recordFormat.AimsAtLabels := by
  intro mnemonic format? flags? operand width hkind hmeasures haccepts
  rw [children_recordFormat] at hmeasures
  rcases recordFormat_cases node with hsame | ⟨_, _, _, _, hinstruction, hrecorded⟩
  · rw [hsame] at hkind
    exact h _ _ _ operand width hkind hmeasures haccepts
  · rw [hrecorded] at hkind
    obtain ⟨rfl, -, -⟩ := Kind.instruction.inj hkind
    exact h _ _ _ operand width hinstruction hmeasures haccepts

variable {tree root : Node} {image : Image}

/-- The words of a tree that goes through all stages. -/
theorem Assembles.emits (h : tree.Assembles root symbols image) :
    Emits symbols .start root.children image.words :=
  Emits.exists_encode_iff.mp h.encoded

/-- **Programs move.** When all load addresses of a program are moved by the same distance and its
    instructions name addresses by labels, its labels move along, and so do the words that are load
    addresses or the addresses of labels. Other words stay. -/
theorem Assembles.moved (h : tree.Assembles root symbols image)
    (haims : ∀ node ∈ tree.children, node.AimsAtLabels) (distance : Word) :
    ∃ symbols', (tree.moveOrigins (· + distance)).Assembles
        (root.moveOrigins (· + distance)) symbols'
        ⟨(listing symbols .start root.children).flatMap fun entry =>
          entry.node.movedWords distance entry.words⟩ ∧
      symbols.Apart distance symbols' := by
  have hregion := Assembly.countP_regionNotices h.analyzed
  -- what the analysis leaves has formats of its own and aims at labels as before
  have hown : ∀ node ∈ root.children, node.RecordsOwnFormat := by
    obtain ⟨hnone, rfl⟩ := StageResult.outcome_eq_ok_iff.mp h.analyzed
    exact recordsOwnFormat_of_errors_eq_zero hnone
  have haims' : ∀ node ∈ root.children, node.AimsAtLabels := by
    rw [children_of_analyze h.analyzed]
    exact List.forall_mem_map.mpr fun node hnode => (haims node hnode).recordFormat
  obtain ⟨symbols', hresolved, hapart⟩ :=
    SymbolTable.exists_build_moved h.resolved hregion distance
  refine ⟨symbols', ⟨analyze_moveOrigins h.analyzed, hresolved, ?_⟩, hapart⟩
  exact Emits.exists_encode_iff.mpr
    (h.emits.moved (fun hinside => absurd rfl hinside) hregion hown haims' hapart)

/-- The image of a program starts with its load address. -/
theorem Assembles.head?_eq {address : Word} (h : tree.Assembles root symbols image)
    (horigin : ∃ node ∈ tree.children, node.isOrigin)
    (haddress : ∀ node ∈ tree.children, node.isOrigin → node.origin? = some address) :
    image.words.head? = some address := by
  have hchildren := children_of_analyze h.analyzed
  refine h.emits.head?_eq (Assembly.countP_regionNotices h.analyzed) ?_ ?_
  · obtain ⟨node, hnode, horigin⟩ := horigin
    refine ⟨node.recordFormat, ?_, by rwa [isOrigin_recordFormat]⟩
    rw [hchildren]
    exact List.mem_map_of_mem hnode
  · rw [hchildren]
    refine List.forall_mem_map.mpr fun node hnode horigin => ?_
    rw [isOrigin_recordFormat] at horigin
    rw [recordFormat_of_isOrigin horigin]
    exact haddress node hnode horigin

/-- With a single `.ORIG` there is one load address. -/
theorem exists_address_of_single (hsingle : tree.children.countP isOrigin = 1)
    (hanalyzed : tree.analyze.outcome = .ok root) :
    ∃ address, (∃ node ∈ tree.children, node.isOrigin) ∧
      ∀ node ∈ tree.children, node.isOrigin → node.origin? = some address := by
  rw [List.countP_eq_length_filter, List.length_eq_one_iff] at hsingle
  obtain ⟨only, honly⟩ := hsingle
  have hiff : ∀ node, node ∈ tree.children ∧ node.isOrigin ↔ node = only := by
    intro node
    rw [← List.mem_filter, honly, List.mem_singleton]
  obtain ⟨hmem, horigin⟩ := (hiff only).mpr rfl
  obtain ⟨hnone, -⟩ := StageResult.outcome_eq_ok_iff.mp hanalyzed
  obtain ⟨operand, value, hchildren, hvalue⟩ :=
    exists_number_of_isOrigin horigin (formatError?_eq_none hnone hmem)
  refine ⟨value, ⟨only, hmem, horigin⟩, fun node hnode horigin => ?_⟩
  obtain rfl := (hiff node).mp ⟨hnode, horigin⟩
  simp [origin?, hchildren, hvalue]

/-- Load addresses that are the same move to another one by the same distance. -/
theorem moveOrigins_eq {address : Word} (hanalyzed : tree.analyze.outcome = .ok root)
    (haddress : ∀ node ∈ tree.children, node.isOrigin → node.origin? = some address)
    (origin : Word) :
    tree.moveOrigins (fun _ => origin) = tree.moveOrigins (· + (origin - address)) := by
  obtain ⟨hnone, -⟩ := StageResult.outcome_eq_ok_iff.mp hanalyzed
  have hnode : ∀ node ∈ tree.children, node.moveOrigin (fun _ => origin) =
      node.moveOrigin (· + (origin - address)) := by
    intro node hmem
    by_cases horigin : node.isOrigin
    · obtain ⟨operand, value, hchildren, hvalue⟩ :=
        exists_number_of_isOrigin horigin (formatError?_eq_none hnone hmem)
      obtain rfl : value = address := by
        simpa [origin?, hchildren, hvalue] using haddress node hmem horigin
      have hsum : value + (origin - value) = origin := by
        rw [BitVec.add_comm, BitVec.sub_add_cancel]
      simp [moveOrigin_of_isOrigin horigin, hchildren, moveNumber, hvalue, hsum]
    · rw [moveOrigin_of_not_isOrigin horigin, moveOrigin_of_not_isOrigin horigin]
  rw [moveOrigins, moveOrigins, List.map_congr_left hnode]

/-- **Position independence.** Take a program with a single `.ORIG` that goes through all stages
    without an error and whose instructions name by labels all addresses that they measure the
    distance to. With any other load address it does so, too. Its image is as long and starts with
    that address; the words that a `.FILL` or a `.BLKW` takes from a label change by the difference
    of the load addresses, modulo the size of memory, and all others stay. Every source that is read
    as that tree, be it spelled as it may, is assembled to this image. -/
theorem position_independent (h : tree.Assembles root symbols image)
    (hsingle : tree.children.countP isOrigin = 1)
    (haims : ∀ node ∈ tree.children, node.AimsAtLabels) (origin : Word) :
    ∃ address image', (∀ node ∈ tree.children, node.isOrigin → node.origin? = some address) ∧
      (∃ root' symbols',
        (tree.moveOrigins fun _ => origin).Assembles root' symbols' image') ∧
      image'.words.length = image.words.length ∧
      image.words.head? = some address ∧ image'.words.head? = some origin ∧
      image.words = (listing symbols .start root.children).flatMap Listing.Entry.words ∧
      image'.words = ((listing symbols .start root.children).flatMap fun entry =>
        entry.node.movedWords (origin - address) entry.words) ∧
      ∀ source result other diagnostics, parse source = .ok result → result.outcome = .ok other →
        (tree.moveOrigins fun _ => origin).Alike (Renames id) other →
          ∃ assembly, assemble source diagnostics = .ok assembly ∧
            assembly.outcome = .ok image' := by
  obtain ⟨address, horigin, haddress⟩ := exists_address_of_single hsingle h.analyzed
  -- the new load address is the old one, moved by their difference
  obtain ⟨symbols', hmoved, -⟩ := h.moved haims (origin - address)
  rw [← moveOrigins_eq h.analyzed haddress origin] at hmoved
  have hwords := h.emits.words_eq
  refine ⟨address, _, haddress, ⟨_, symbols', hmoved⟩, ?_, h.head?_eq horigin haddress, ?_, hwords,
    rfl, ?_⟩
  · -- statements are as long as before, one by one
    rw [hwords, List.length_flatMap, List.length_flatMap]
    simp only [length_movedWords]
  · refine hmoved.head?_eq ?_ ?_
    · obtain ⟨node, hnode, horigin⟩ := horigin
      exact ⟨_, List.mem_map_of_mem hnode, by rwa [isOrigin_moveOrigin]⟩
    · refine List.forall_mem_map.mpr fun node hnode horigin => ?_
      rw [isOrigin_moveOrigin] at horigin
      exact origin?_moveOrigin horigin (haddress node hnode horigin)
  · intro source result other diagnostics hparse hout halike
    -- the run of the source comes to what the run of the tree does
    obtain ⟨assembly, _, _, hassemble, hrun, -⟩ := Assembly.completes_assemble source diagnostics
    obtain ⟨_, hother⟩ := hrun.analysis hparse hout
    obtain ⟨_, htree⟩ := hmoved.exists_run
    exact ⟨assembly, hassemble, htree.outcome_eq hother halike (Set.injOn_id _)⟩

/-- A program with labels in front of its `.ORIG` and behind it, moved over the end of memory. -/
theorem position_independent_over_end :
    let source := "START .orig x3000\nLOOP LEA R0, DATA\nBRp LOOP\nHALT\nDATA .fill DATA\n" ++
      ".blkw 2, START\n.fill x3000\n.end"
    let image : Image := ⟨[0x3000#16, 0xE002#16, 0x03FE#16, 0xF025#16, 0x3003#16, 0x3000#16,
      0x3000#16, 0x3000#16]⟩
    let image' : Image := ⟨[0xFFFE#16, 0xE002#16, 0x03FE#16, 0xF025#16, 0x0001#16, 0xFFFE#16,
      0xFFFE#16, 0x3000#16]⟩
    ∃ tree root symbols, Assembly.Stages source tree root symbols image ∧
      tree.children.countP isOrigin = 1 ∧ (∀ node ∈ tree.children, node.AimsAtLabels) ∧
      ∃ root' symbols', (tree.moveOrigins fun _ => 0xFFFE#16).Assembles root' symbols' image' := by
  intro source image image'
  -- both images are evaluated, the second as words that are moved
  have hassemble : (assemble source .empty).map Assembly.outcome = .ok (.ok image) := by
    decide +kernel
  obtain ⟨assembly, hassemble, himage⟩ := map_eq_ok_iff.mp hassemble
  obtain ⟨tree, root, symbols, hstages⟩ := Assembly.exists_stages hassemble himage
  -- no instruction has a number for an operand
  have hread : (parse source).map (fun result => decide (
      result.product.children.countP isOrigin = 1 ∧ ∀ node ∈ result.product.children,
        node.kind ≠ .directive .orig → node.kind ≠ .directive .fill →
          node.kind ≠ .directive .blkw → ∀ operand ∈ node.children,
            Operand.address.accepts operand.kind → operand.kind = .labelReference)) = .ok true := by
    decide +kernel
  have hlisted : (Assembly.stagesOf? source).map (fun stages =>
      (listing stages.1 .start stages.2.children).flatMap fun entry =>
        entry.node.movedWords (0xFFFE#16 - 0x3000#16) entry.words) = some image'.words := by
    decide +kernel
  obtain ⟨result, hparse, hchecked⟩ := map_eq_ok_iff.mp hread
  obtain ⟨hsingle, hlabels⟩ := of_decide_eq_true hchecked
  obtain ⟨result', hparse', hout⟩ := hstages.parsed
  obtain rfl := Except.ok.inj (hparse.symm.trans hparse')
  obtain ⟨-, rfl⟩ := StageResult.outcome_eq_ok_iff.mp hout
  have haims : ∀ node ∈ result.product.children, node.AimsAtLabels := by
    intro node hnode mnemonic format? flags? operand width hkind hmeasures haccepts
    exact hlabels node hnode (by simp [hkind]) (by simp [hkind]) (by simp [hkind]) operand
      (mem_of_measures hmeasures) haccepts
  obtain ⟨address, image'', -, ⟨root', symbols', hmoved⟩, -, haddress, -, -, hwords, -⟩ :=
    position_independent hstages.assembles hsingle haims 0xFFFE#16
  obtain rfl : 0x3000#16 = address := Option.some.inj haddress
  rw [hstages.stagesOf?_eq, Option.map_some, Option.some.injEq, ← hwords] at hlisted
  obtain rfl : image'' = image' := congrArg Image.mk hlisted
  exact ⟨_, root, symbols, hstages, hsingle, haims, root', symbols', hmoved⟩

end Node

end LC3
