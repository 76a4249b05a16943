import LC3.Proofs.Stages

namespace LC3

/-!
# Labels and their addresses

The walk that gives labels their addresses keeps those that wait for one. Here is what becomes of
them when no label is left without an address.

* `SymbolTable.lookup_ofList` — a table built from entries with distinct names finds each of them,
  and has no others: `SymbolTable.entries_ofList`.
* `Node.nameNotices_eq_nil_iff` — when names are in order.
* `Binder.exists_target` — a label that waits is bound to the next node with an address, and no
  region ends before it.
* `SymbolTable.lookup_definition` — what that means for the symbol table of a program.
-/

/-! ### Tables -/

namespace SymbolTable

/-- Taking a name out of some entries does not change what other names mean. -/
private theorem lookup_filter_other {entries : List (String × Word)} {name other : String}
    (h : name ≠ other) : (entries.filter (·.1 ≠ other)).lookup name = entries.lookup name := by
  induction entries with
  | nil => rfl
  | cons entry entries ih =>
    obtain ⟨key, address⟩ := entry
    rw [List.filter_cons]
    by_cases hkey : key = other
    · have hne : (name == key) = false := beq_false_of_ne (hkey ▸ h)
      rw [if_neg (by simp [hkey]), ih, List.lookup_cons, hne]
    · rw [if_pos (by simp [hkey]), List.lookup_cons, List.lookup_cons, ih]

theorem lookup_insert_self (table : SymbolTable) (name : String) (address : Word) :
    (table.insert name address).lookup name = some address := by
  simp [insert, lookup]

/-- Other names keep their addresses. -/
theorem lookup_insert_of_ne (table : SymbolTable) {name other : String} (address : Word)
    (h : name ≠ other) : (table.insert other address).lookup name = table.lookup name := by
  simp only [insert, lookup, List.lookup_cons, beq_false_of_ne h]
  exact lookup_filter_other h

/-- Entries with other names leave a name alone. -/
private theorem lookup_foldl_insert {entries : List (String × Word)} {name : String}
    (table : SymbolTable) (h : name ∉ entries.map Prod.fst) :
    (entries.foldl (fun table entry => table.insert entry.1 entry.2) table).lookup name =
      table.lookup name := by
  induction entries generalizing table with
  | nil => rfl
  | cons entry entries ih =>
    simp only [List.map_cons, List.mem_cons, not_or] at h
    rw [List.foldl_cons, ih _ h.2, lookup_insert_of_ne _ _ h.1]

/-- A table built from entries with distinct names finds each of them. -/
theorem lookup_ofList {entries : List (String × Word)} {name : String} {address : Word}
    (hnodup : (entries.map Prod.fst).Nodup) (hmem : (name, address) ∈ entries) :
    (ofList entries).lookup name = some address := by
  obtain ⟨front, back, rfl⟩ := List.append_of_mem hmem
  -- later entries have other names, so they leave this one alone
  have hback : name ∉ back.map Prod.fst := by
    simp only [List.map_append, List.map_cons] at hnodup
    exact (List.nodup_cons.mp (List.nodup_append.mp hnodup).2.1).1
  show ((front ++ (name, address) :: back).foldl
    (fun table entry => table.insert entry.1 entry.2) empty).lookup name = some address
  rw [List.foldl_append, List.foldl_cons, lookup_foldl_insert _ hback, lookup_insert_self]

/-- A table that is filled with other names keeps what it has, with the last entry at the head. -/
private theorem entries_foldl_insert {entries : List (String × Word)} (table : SymbolTable)
    (hnodup : (entries.map Prod.fst).Nodup)
    (hother : ∀ name ∈ entries.map Prod.fst, name ∉ table.entries.map Prod.fst) :
    (entries.foldl (fun table entry => table.insert entry.1 entry.2) table).entries =
      entries.reverse ++ table.entries := by
  induction entries generalizing table with
  | nil => rfl
  | cons entry entries ih =>
    obtain ⟨hfirst, hnodup⟩ := List.nodup_cons.mp hnodup
    obtain ⟨hnew, hother⟩ := List.forall_mem_cons.mp hother
    -- no entry is taken out for the new one
    have hinsert : (table.insert entry.1 entry.2).entries = entry :: table.entries := by
      have hkeep : ∀ other ∈ table.entries, other.1 ≠ entry.1 := by
        rintro other hmem heq
        exact hnew (List.mem_map.mpr ⟨other, hmem, heq⟩)
      simpa [insert] using hkeep
    rw [List.foldl_cons, ih _ hnodup, hinsert, List.reverse_cons, List.append_assoc]
    · rfl
    · -- the new name is in front, and the names behind it are others
      intro name hname hmem
      rw [hinsert, List.map_cons, List.mem_cons] at hmem
      rcases hmem with rfl | hmem
      · exact hfirst hname
      · exact hother name hname hmem

/-- A table built from entries with distinct names has these entries, the last one at the head. -/
theorem entries_ofList {entries : List (String × Word)} (h : (entries.map Prod.fst).Nodup) :
    (ofList entries).entries = entries.reverse :=
  (entries_foldl_insert empty h fun _ _ => List.not_mem_nil).trans (List.append_nil _)

end SymbolTable

/-! ### Definitions -/

namespace Node

/-- Without a notice of duplicates, definitions are distinct from each other and from those seen
    before. -/
theorem nodup_of_duplicateNotices {seen : List (String × Nat)} {nodes : List Node}
    (h : duplicateNotices seen nodes = []) :
    (nodes.map text).Nodup ∧ ∀ node ∈ nodes, seen.lookup node.text = none := by
  induction nodes generalizing seen with
  | nil => simp
  | cons node nodes ih =>
    unfold duplicateNotices at h
    split at h
    case h_1 => cases h
    case h_2 hnone =>
      obtain ⟨hnodup, hseen⟩ := ih h
      -- what has been seen behind this node includes the node
      have hdistinct : ∀ other ∈ nodes, other.text ≠ node.text ∧ seen.lookup other.text = none := by
        intro other hother
        have hlookup := hseen other hother
        rw [List.lookup_cons] at hlookup
        split at hlookup
        case h_1 => cases hlookup
        case h_2 hne => exact ⟨by simpa using hne, hlookup⟩
      refine ⟨?_, ?_⟩
      · -- the names of the rest differ from this one
        rw [List.map_cons, List.nodup_cons]
        refine ⟨?_, hnodup⟩
        rintro hmem
        obtain ⟨other, hother, heq⟩ := List.mem_map.mp hmem
        exact (hdistinct other hother).1 heq
      · intro other hother
        rcases List.mem_cons.mp hother with rfl | hother
        · exact hnone
        · exact (hdistinct other hother).2

/-- Distinct definitions, none of which has been seen before, are no duplicates. -/
theorem duplicateNotices_eq_nil {seen : List (String × Nat)} {nodes : List Node}
    (hnodup : (nodes.map text).Nodup) (hseen : ∀ node ∈ nodes, seen.lookup node.text = none) :
    duplicateNotices seen nodes = [] := by
  induction nodes generalizing seen with
  | nil => rfl
  | cons node nodes ih =>
    obtain ⟨hfirst, hnodup⟩ := List.nodup_cons.mp hnodup
    obtain ⟨hnew, hseen⟩ := List.forall_mem_cons.mp hseen
    unfold duplicateNotices
    rw [hnew]
    refine ih hnodup fun other hother => ?_
    have hne : (other.text == node.text) = false := by
      rw [beq_eq_false_iff_ne]
      exact fun heq => hfirst (List.mem_map.mpr ⟨other, hother, heq⟩)
    rw [List.lookup_cons, hne]
    exact hseen other hother

/-- Names are in order exactly if definitions are distinct and every label that is used is
    defined. -/
theorem nameNotices_eq_nil_iff {root : Node} :
    root.nameNotices = [] ↔ (root.definitions.map text).Nodup ∧
      ∀ node ∈ root.references, node.text ∈ root.definitions.map text := by
  have hundefined : root.undefinedNotices = [] ↔
      ∀ node ∈ root.references, node.text ∈ root.definitions.map text := by
    simp [undefinedNotices]
  rw [nameNotices, List.append_eq_nil_iff, hundefined]
  refine and_congr_left fun _ => ⟨fun h => (nodup_of_duplicateNotices h).1, fun h => ?_⟩
  exact duplicateNotices_eq_nil h fun _ _ => rfl

/-- Everything that is wrong about the names of labels is an error. -/
theorem isError_of_mem_nameNotices {root : Node} {notice : Notice}
    (h : notice ∈ root.nameNotices) : notice.isError := by
  -- both the definition of a name that has been seen and a name without a definition are errors
  have hduplicate : ∀ (nodes : List Node) (seen : List (String × Nat)),
      ∀ notice ∈ duplicateNotices seen nodes, notice.isError := by
    intro nodes
    induction nodes with
    | nil => simp [duplicateNotices]
    | cons node nodes ih =>
      intro seen notice hnotice
      unfold duplicateNotices at hnotice
      split at hnotice
      · rcases List.mem_cons.mp hnotice with rfl | hnotice
        · rfl
        · exact ih _ _ hnotice
      · exact ih _ _ hnotice
  rcases List.mem_append.mp h with h | h
  · exact hduplicate _ _ _ h
  · obtain ⟨node, -, rfl⟩ := List.mem_map.mp h
    rfl

/-- Some nodes are among the nodes of their trees, in the same order. -/
theorem sublist_walkAll (nodes : List Node) : nodes.Sublist (walkAll nodes) := by
  induction nodes with
  | nil => exact List.nil_sublist _
  | cons node nodes ih =>
    obtain ⟨kind, token?, children⟩ := node
    simp only [walkAll, walk, List.cons_append]
    exact (ih.trans (List.sublist_append_right _ _)).cons_cons _

/-- The labels among the children of a root are among the definitions of the tree. -/
theorem sublist_definitions (root : Node) :
    (root.children.filter (·.kind = .labelDefinition)).Sublist root.definitions := by
  obtain ⟨kind, token?, children⟩ := root
  exact ((sublist_walkAll children).trans (List.sublist_cons_self _ _)).filter _

end Node

/-! ### The walk -/

namespace Binder

/-- Whether a node neither gives labels an address nor leaves them without one. -/
def passes (node : Node) : Bool :=
  !isAddressed node.kind && node.kind ≠ .directive .endRegion

/-- A node ends a region, has an address, or does neither. -/
theorem visit_kinds (node : Node) :
    node.kind = .directive .endRegion ∨ isAddressed node.kind ∨ passes node := by
  by_cases hend : node.kind = .directive .endRegion
  · exact .inl hend
  · by_cases haddressed : isAddressed node.kind
    · exact .inr (.inl haddressed)
    · exact .inr (.inr (by simp [passes, haddressed, hend]))

/-- At the end of a region the labels that wait are left without an address. -/
theorem visit_endRegion (binder : Binder) {node : Node} (h : node.kind = .directive .endRegion) :
    binder.visit node = ⟨binder.counter.step node, [], binder.bound,
      binder.dangling ++ binder.pending⟩ := by
  simp [visit, h]

/-- A node with an address gives it to the labels that wait. -/
theorem visit_isAddressed (binder : Binder) {node : Node} (h : isAddressed node.kind) :
    binder.visit node = ⟨binder.counter.step node, [], binder.bound ++ binder.pending.map
      fun label => (label.text, (binder.counter.step node).address), binder.dangling⟩ := by
  unfold visit
  split
  case h_1 hkind => simp [hkind, isAddressed] at h
  case h_2 hkind => simp [hkind, isAddressed, Directive.isMemory] at h
  case h_3 => rw [if_pos h]

/-- Every other node only joins the labels that wait, if it is one. -/
theorem visit_passes (binder : Binder) {node : Node} (h : passes node) :
    binder.visit node = ⟨binder.counter.step node,
      binder.pending ++ [node].filter (·.kind = .labelDefinition), binder.bound,
      binder.dangling⟩ := by
  simp only [passes, Bool.and_eq_true, Bool.not_eq_true', decide_eq_true_eq] at h
  unfold visit
  split
  case h_1 hkind => simp [hkind]
  case h_2 hkind => exact absurd hkind h.2
  case h_3 hlabel _ =>
    have hfilter : [node].filter (·.kind = .labelDefinition) = [] := by simpa using hlabel
    rw [if_neg (by simp [h.1]), hfilter, List.append_nil]

/-- The counter goes over each node in the same way whatever labels wait. -/
@[simp] theorem counter_visit (binder : Binder) (node : Node) :
    (binder.visit node).counter = binder.counter.step node := by
  rcases visit_kinds node with h | h | h
  · rw [visit_endRegion _ h]
  · rw [visit_isAddressed _ h]
  · rw [visit_passes _ h]

/-- The walk moves the counter as every walk does. -/
@[simp] theorem counter_foldl_visit (binder : Binder) (nodes : List Node) :
    (nodes.foldl visit binder).counter = nodes.foldl Counter.step binder.counter := by
  induction nodes generalizing binder with
  | nil => rfl
  | cons node nodes ih => rw [List.foldl_cons, List.foldl_cons, ih, counter_visit]

/-- Labels that have an address keep it. -/
theorem bound_prefix_foldl_visit (binder : Binder) (nodes : List Node) :
    binder.bound <+: (nodes.foldl visit binder).bound := by
  induction nodes generalizing binder with
  | nil => exact List.prefix_refl _
  | cons node nodes ih =>
    refine .trans ?_ (ih (binder.visit node))
    rcases visit_kinds node with h | h | h
    · simp only [visit_endRegion _ h, List.prefix_refl]
    · simp only [visit_isAddressed _ h, List.prefix_append]
    · simp only [visit_passes _ h, List.prefix_refl]

/-- Labels without an address get none later. -/
theorem dangling_prefix_foldl_visit (binder : Binder) (nodes : List Node) :
    binder.dangling <+: (nodes.foldl visit binder).dangling := by
  induction nodes generalizing binder with
  | nil => exact List.prefix_refl _
  | cons node nodes ih =>
    refine .trans ?_ (ih (binder.visit node))
    rcases visit_kinds node with h | h | h
    · simp only [visit_endRegion _ h, List.prefix_append]
    · simp only [visit_isAddressed _ h, List.prefix_refl]
    · simp only [visit_passes _ h, List.prefix_refl]

/-- **Waiting labels are bound to the next address.** When no label is left without an address, one
    that waits gets the address of the first node that has one, and no region ends before it. -/
theorem exists_target {binder : Binder} {nodes : List Node} {label : Node}
    (hlabel : label ∈ binder.pending) (hdangling : (nodes.foldl visit binder).dangling = [])
    (hpending : (nodes.foldl visit binder).pending = []) :
    ∃ between target behind, nodes = between ++ target :: behind ∧ (∀ node ∈ between, passes node) ∧
      isAddressed target.kind ∧
      (label.text, ((between.foldl Counter.step binder.counter).step target).address) ∈
        (nodes.foldl visit binder).bound := by
  induction nodes generalizing binder with
  | nil =>
    -- the label would still wait at the end
    rw [List.foldl_nil] at hpending
    simp [hpending] at hlabel
  | cons node nodes ih =>
    rw [List.foldl_cons] at hdangling hpending ⊢
    rcases visit_kinds node with h | h | h
    · -- the label would be left without an address
      have hnone := dangling_prefix_foldl_visit (binder.visit node) nodes
      rw [hdangling, visit_endRegion _ h, List.prefix_nil, List.append_eq_nil_iff] at hnone
      simp [hnone.2] at hlabel
    · -- the node is the target, and what it binds stays bound
      refine ⟨[], node, nodes, rfl, by simp, h, ?_⟩
      refine (bound_prefix_foldl_visit (binder.visit node) nodes).subset ?_
      rw [visit_isAddressed _ h]
      exact List.mem_append_right _ (List.mem_map.mpr ⟨label, hlabel, rfl⟩)
    · -- the label goes on waiting behind the node
      have hwaits : label ∈ (binder.visit node).pending := by
        rw [visit_passes _ h]
        exact List.mem_append_left _ hlabel
      obtain ⟨between, target, behind, rfl, hbetween, htarget, hbound⟩ :=
        ih hwaits hdangling hpending
      refine ⟨node :: between, target, behind, rfl, ?_, htarget, ?_⟩
      · simpa using ⟨h, hbetween⟩
      · rwa [visit_passes _ h] at hbound ⊢

/-- A label joins those that wait. -/
theorem mem_pending_visit (binder : Binder) {node : Node} (h : node.kind = .labelDefinition) :
    node ∈ (binder.visit node).pending := by
  rw [visit_passes _ (by simp [passes, h, isAddressed])]
  simp [h]

/-- The labels with an address and those that wait are among the definitions visited, in order. -/
theorem names_foldl_visit (binder : Binder) (nodes : List Node) :
    ((nodes.foldl visit binder).bound.map Prod.fst ++
      (nodes.foldl visit binder).pending.map Node.text).Sublist
    (binder.bound.map Prod.fst ++ binder.pending.map Node.text ++
      (nodes.filter (·.kind = .labelDefinition)).map Node.text) := by
  induction nodes generalizing binder with
  | nil => simp
  | cons node nodes ih =>
    refine (ih (binder.visit node)).trans ?_
    have hsplit : (node :: nodes).filter (·.kind = .labelDefinition) =
        [node].filter (·.kind = .labelDefinition) ++ nodes.filter (·.kind = .labelDefinition) := by
      rw [← List.filter_append]; rfl
    rw [hsplit, List.map_append, ← List.append_assoc]
    refine List.Sublist.append_right ?_ _
    -- labels that wait are dropped, get an address or are joined by a definition
    rcases visit_kinds node with h | h | h
    · rw [visit_endRegion _ h]
      simp [List.append_assoc]
    · rw [visit_isAddressed _ h]
      simp [Function.comp_def]
    · rw [visit_passes _ h]
      simp

/-- The labels with an address are among the definitions of a program, in order. -/
theorem bound_ofProgram_sublist (root : Node) :
    ((ofProgram root).bound.map Prod.fst).Sublist (root.definitions.map Node.text) := by
  have hvisited := names_foldl_visit .start root.children
  exact (List.sublist_append_left _ _).trans
    (hvisited.trans (root.sublist_definitions.map Node.text))

/-- No label is left without an address exactly if the walk leaves none, and none waits behind the
    last statement. -/
theorem dangling_ofProgram_eq_nil_iff {root : Node} :
    (ofProgram root).dangling = [] ↔ (root.children.foldl visit start).dangling = [] ∧
      (root.children.foldl visit start).pending = [] :=
  List.append_eq_nil_iff

end Binder

/-! ### The symbol table of a program -/

namespace SymbolTable

/-- A symbol table is built only when names are in order and no label is left without an address. -/
theorem outcome_build_eq_ok {root : Node} {table : SymbolTable}
    (h : (build root).outcome = .ok table) :
    root.nameNotices = [] ∧ (Binder.ofProgram root).dangling = [] ∧
      table = ofList (Binder.ofProgram root).bound := by
  obtain ⟨herrors, hproduct⟩ := StageResult.outcome_eq_ok_iff.mp h
  unfold build at herrors hproduct
  split at herrors
  -- the names are in order, so all errors are of labels without an address
  case h_1 hnames =>
    rw [hnames] at hproduct
    have hdangling : (Binder.ofProgram root).dangling.length = 0 := by
      have hall : ∀ notice ∈ (Binder.ofProgram root).notices, notice.isError := by
        intro notice hnotice
        obtain ⟨label, -, rfl⟩ := List.mem_map.mp hnotice
        rfl
      rw [StageResult.errors, List.countP_eq_length.mpr hall] at herrors
      simpa [Binder.notices] using herrors
    exact ⟨hnames, by simpa using hdangling, hproduct.symm⟩
  case h_2 notices hnames =>
    -- an error of the names would be one of the stage
    rw [StageResult.errors, List.countP_eq_length.mpr fun _ => Node.isError_of_mem_nameNotices]
      at herrors
    exact absurd (List.eq_nil_of_length_eq_zero herrors) hnames

/-- A symbol table is built when names are in order and no label is left without an address. -/
theorem outcome_build {root : Node} (hnames : root.nameNotices = [])
    (hdangling : (Binder.ofProgram root).dangling = []) :
    (build root).outcome = .ok (ofList (Binder.ofProgram root).bound) := by
  have hnotices : (Binder.ofProgram root).notices = [] := by
    rw [Binder.notices, hdangling, List.map_nil]
  rw [StageResult.outcome_eq_ok_iff, StageResult.errors, build, hnames]
  dsimp only
  rw [hnotices]
  exact ⟨rfl, rfl⟩

/-- **Labels mean what follows them.** In the symbol table of a program each label has the address
    of the first node behind its definition that has one, and no region ends before it. -/
theorem lookup_definition {root : Node} {table : SymbolTable} {before after : List Node}
    {label : Node} (h : (build root).outcome = .ok table)
    (hchildren : root.children = before ++ label :: after)
    (hlabel : label.kind = .labelDefinition) :
    ∃ between target behind, after = between ++ target :: behind ∧
      (∀ node ∈ between, Binder.passes node) ∧ Binder.isAddressed target.kind ∧
      table.lookup label.text = some (((before ++ label :: between).foldl Counter.step
        .start).step target).address := by
  obtain ⟨hnames, hdangling, rfl⟩ := outcome_build_eq_ok h
  have hbound : ((Binder.ofProgram root).bound.map Prod.fst).Nodup :=
    (Node.nameNotices_eq_nil_iff.mp hnames).1.sublist (Binder.bound_ofProgram_sublist root)
  obtain ⟨hdangling, hpending⟩ := Binder.dangling_ofProgram_eq_nil_iff.mp hdangling
  -- the label waits behind its own visit
  let binder := (before.foldl Binder.visit .start).visit label
  have hfold : root.children.foldl Binder.visit .start = after.foldl Binder.visit binder := by
    rw [hchildren, List.foldl_append, List.foldl_cons]
  rw [hfold] at hdangling hpending
  obtain ⟨between, target, behind, rfl, hbetween, htarget, hmem⟩ :=
    Binder.exists_target (Binder.mem_pending_visit _ hlabel) hdangling hpending
  refine ⟨between, target, behind, rfl, hbetween, htarget, lookup_ofList hbound ?_⟩
  show _ ∈ (root.children.foldl Binder.visit .start).bound
  rw [hfold, List.foldl_append, List.foldl_cons]
  simpa [binder, Binder.start] using hmem

end SymbolTable

end LC3
