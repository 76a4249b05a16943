import LC3.Proofs.Analysis
import LC3.Proofs.References
import Mathlib.Data.List.Perm.Basic
import Mathlib.Data.List.Nodup

namespace LC3

/-!
# Well-labelled programs

The table of symbols is made in two walks, with a table of the definitions seen so far and a stack
of labels that wait for an address. Which labels are wrong can be said without either, by looking
back from a definition for another one of its name, and ahead from a label for the next statement.

* `Node.redefinitions` — definitions of names that have been defined before; with the uses of names
  that are never defined they are all that is wrong with names, `Node.misnamed`.
* `Node.unaddressed` — labels in front of the end of a region or of the program.
* `SymbolTable.Lists` — tables of given names, listed in the order of their addresses.
* `SymbolTable.build_of_parse` — for a tree that comes from a source, the errors of the table are
  these labels and those that are used and never defined, and a table of all labels is made exactly
  if there are none.
-/

namespace Node

/-! ### Names that are defined again -/

/-- The definitions of names that another definition in front of them has, each reported with the
    line of the first one. -/
def redefinitions (definitions : List Node) : List Notice :=
  (definitions.mapIdx fun i node =>
    ((definitions.take i).find? (·.text = node.text)).toList.map fun first =>
      node.notice (.duplicateLabel node.text first.line)).flatten

/-- The line of the first definition of a name, behind one more definition. -/
private theorem find?_concat_line (before : List Node) (node : Node) (name : String) :
    ((before ++ [node]).find? (·.text = name)).map line =
      ((before.find? (·.text = name)).map line).or
        (if node.text = name then some node.line else none) := by
  rw [List.find?_append, List.find?_singleton]
  cases before.find? (·.text = name) <;> by_cases h : node.text = name <;> simp [h]

/-- A walk over definitions that knows the lines of the first ones reports those that are defined
    again. -/
private theorem duplicateNotices_eq {seen : List (String × Nat)} (before : List Node)
    {nodes : List Node}
    (hseen : ∀ name, seen.lookup name = (before.find? (·.text = name)).map line) :
    duplicateNotices seen nodes =
      (nodes.mapIdx fun i node =>
        ((before ++ nodes.take i).find? (·.text = node.text)).toList.map fun first =>
          node.notice (.duplicateLabel node.text first.line)).flatten := by
  induction nodes generalizing seen before with
  | nil => rfl
  | cons node nodes ih =>
    have hsplit : ∀ i, before ++ (node :: nodes).take (i + 1) =
        (before ++ [node]) ++ nodes.take i := by simp
    rw [List.mapIdx_cons, List.flatten_cons]
    simp only [hsplit, List.take_zero, List.append_nil]
    unfold duplicateNotices
    cases hfirst : before.find? (·.text = node.text) with
    | some first =>
      rw [hseen, hfirst]
      -- the name has been seen, so its first line stays
      have hseen' : ∀ name, seen.lookup name =
          ((before ++ [node]).find? (·.text = name)).map line := by
        intro name
        rw [hseen, find?_concat_line]
        split
        case isTrue h => simp [← h, hfirst]
        case isFalse => rw [Option.or_none]
      simp [ih _ hseen']
    | none =>
      rw [hseen, hfirst]
      have hseen' : ∀ name, ((node.text, node.line) :: seen).lookup name =
          ((before ++ [node]).find? (·.text = name)).map line := by
        intro name
        rw [List.lookup_cons, hseen, find?_concat_line]
        by_cases h : node.text = name
        · simp [← h, hfirst]
        · have hne : (name == node.text) = false := beq_false_of_ne (Ne.symm h)
          simp [hne, h]
      simp [ih _ hseen']

/-- All that is wrong with the names of a tree: those that are defined again, and the uses of those
    that are never defined. -/
def misnamed (root : Node) : List Notice :=
  redefinitions root.definitions ++
    (root.references.filter fun node => node.text ∉ root.definitions.map text).map fun node =>
      node.notice (.undefinedLabel node.text)

/-- What is wrong with the names is what the walk reports about them. -/
theorem nameNotices_eq_misnamed (root : Node) : root.nameNotices = root.misnamed := by
  rw [nameNotices, misnamed, duplicateNotices_eq [] fun _ => rfl]
  refine congrArg₂ _ rfl (congrArg _ (List.filter_congr fun node _ => ?_))
  rw [List.contains_eq_mem, decide_not]

/-! ### Labels that nothing follows -/

/-- The next instruction, memory directive, `.ORIG` or `.END` of some statements. -/
def nextStatement? (statements : List Node) : Option Node :=
  statements.find? fun node =>
    node.isPlaced || node.isOrigin || node.kind = .directive .endRegion

/-- Whether the next statement is an `.END` or does not exist. -/
def Ends (statements : List Node) : Prop :=
  ∀ next ∈ nextStatement? statements, next.kind = .directive .endRegion

instance (statements : List Node) : Decidable (Ends statements) :=
  inferInstanceAs (Decidable (∀ _ ∈ nextStatement? statements, _))

/-- The labels that no statement with an address follows, or none before the end of a region. -/
def unaddressed (statements : List Node) : List Node :=
  (statements.mapIdx fun i node =>
    if node.kind = .labelDefinition ∧ Ends (statements.drop (i + 1)) then [node] else []).flatten

/-- The first label is without an address if the statements behind it end the region. -/
theorem unaddressed_cons (node : Node) (statements : List Node) :
    unaddressed (node :: statements) =
      (if node.kind = .labelDefinition ∧ Ends statements then [node] else []) ++
        unaddressed statements := by
  unfold unaddressed
  rw [List.mapIdx_cons, List.flatten_cons]
  rfl

/-- A statement is the next one exactly if it gives labels an address or ends a region. -/
theorem isAddressed_iff (node : Node) :
    Binder.isAddressed node.kind = (node.isPlaced || node.isOrigin) := by
  unfold Binder.isAddressed isPlaced isOrigin
  cases node.kind with
  | directive directive => cases directive <;> rfl
  | _ => rfl

theorem ends_cons_of_endRegion {node : Node} {statements : List Node}
    (h : node.kind = .directive .endRegion) : Ends (node :: statements) := by
  simp [Ends, nextStatement?, h]

theorem not_ends_cons_of_isAddressed {node : Node} {statements : List Node}
    (h : Binder.isAddressed node.kind) : ¬ Ends (node :: statements) := by
  have hend : node.kind ≠ .directive .endRegion := by
    rintro hend
    simp [hend, Binder.isAddressed, Directive.isMemory] at h
  rw [isAddressed_iff] at h
  simp [Ends, nextStatement?, h, hend]

theorem ends_cons_of_passes {node : Node} {statements : List Node} (h : Binder.passes node) :
    Ends (node :: statements) ↔ Ends statements := by
  simp only [Binder.passes, isAddressed_iff, Bool.and_eq_true, Bool.not_eq_true',
    Bool.or_eq_false_iff, decide_eq_true_eq] at h
  simp [Ends, nextStatement?, h]

end Node

namespace Binder

/-- The labels that a walk leaves without an address are those it began with, those that waited if a
    region or the program ends next, and those among the statements that are not addressed. -/
theorem dangling_foldl_visit (binder : Binder) (nodes : List Node) :
    (nodes.foldl visit binder).dangling ++ (nodes.foldl visit binder).pending =
      binder.dangling ++ (if Node.Ends nodes then binder.pending else []) ++
        Node.unaddressed nodes := by
  induction nodes generalizing binder with
  | nil => simp [Node.Ends, Node.nextStatement?, Node.unaddressed]
  | cons node nodes ih =>
    rw [List.foldl_cons, ih, Node.unaddressed_cons]
    rcases visit_kinds node with h | h | h
    · -- the region ends, and what waits is left without an address
      rw [visit_endRegion _ h]
      simp [Node.ends_cons_of_endRegion h, h]
    · -- what waits is bound, so none of it is left
      have hlabel : node.kind ≠ .labelDefinition := by
        rintro hlabel
        simp [hlabel, isAddressed] at h
      rw [visit_isAddressed _ h]
      simp [Node.not_ends_cons_of_isAddressed h, hlabel]
    · -- nothing changes for what waits, except that a label joins it
      rw [visit_passes _ h]
      by_cases hends : Node.Ends nodes <;> by_cases hlabel : node.kind = .labelDefinition <;>
        simp [Node.ends_cons_of_passes h, hends, hlabel]

theorem dangling_ofProgram (root : Node) :
    (ofProgram root).dangling = Node.unaddressed root.children := by
  show (root.children.foldl visit start).dangling ++ (root.children.foldl visit start).pending = _
  rw [dangling_foldl_visit]
  simp [start]

end Binder

/-! ### Tables -/

namespace SymbolTable

/-- A table of given names: it has each of them once, and lists each with its address once, in the
    order of addresses and, at one address, of names. -/
structure Lists (table : SymbolTable) (names : List String) : Prop where
  names : (table.entries.map Prod.fst).Perm names
  nodup : (table.entries.map Prod.fst).Nodup
  mem_iff : ∀ name address,
    (name, address) ∈ table.toSortedList ↔ table.lookup name = some address
  once : (table.toSortedList.map Prod.fst).Nodup
  sorted : table.toSortedList.Pairwise fun first second =>
    first.2 < second.2 ∨ first.2 = second.2 ∧ first.1 < second.1

theorem precedes_iff {first second : String × Word} :
    precedes first second ↔
      first.2 < second.2 ∨ first.2 = second.2 ∧ first.1 ≤ second.1 := by
  simp [precedes]

theorem precedes_trans (first second third : String × Word) (h : precedes first second)
    (h' : precedes second third) : precedes first third := by
  -- addresses come first, and names decide where they are the same
  rw [precedes_iff] at h h' ⊢
  rcases h with h | ⟨heq, h⟩
  · rcases h' with h' | ⟨heq', -⟩
    · exact .inl (BitVec.lt_trans h h')
    · exact .inl (heq' ▸ h)
  · rcases h' with h' | ⟨heq', h'⟩
    · exact .inl (heq ▸ h')
    · exact .inr ⟨heq.trans heq', String.le_trans h h'⟩

theorem precedes_total (first second : String × Word) :
    precedes first second || precedes second first := by
  rw [Bool.or_eq_true, precedes_iff, precedes_iff]
  rcases Nat.lt_trichotomy first.2.toNat second.2.toNat with h | h | h
  · exact .inl (.inl h)
  · have haddress : first.2 = second.2 := BitVec.eq_of_toNat_eq h
    rcases String.le_total first.1 second.1 with hle | hle
    · exact .inl (.inr ⟨haddress, hle⟩)
    · exact .inr (.inr ⟨haddress.symm, hle⟩)
  · exact .inr (.inl h)

/-- A name is found in a table exactly if it has an entry. -/
theorem isSome_lookup_iff {table : SymbolTable} {name : String} :
    (table.lookup name).isSome ↔ name ∈ table.entries.map Prod.fst := by
  unfold lookup
  rw [List.lookup_isSome_iff]
  simp

/-- A table with distinct names finds exactly its entries. -/
theorem lookup_eq_some_iff {table : SymbolTable} {name : String} {address : Word}
    (h : (table.entries.map Prod.fst).Nodup) :
    table.lookup name = some address ↔ (name, address) ∈ table.entries := by
  unfold lookup
  rw [List.lookup_eq_some_iff]
  constructor
  · rintro ⟨front, behind, hsplit, -⟩
    rw [hsplit]
    exact List.mem_append_right _ List.mem_cons_self
  · intro hmem
    obtain ⟨front, behind, hsplit⟩ := List.append_of_mem hmem
    refine ⟨front, behind, hsplit, fun entry hentry => ?_⟩
    -- the entry is the first of its name, since there is no other
    rw [hsplit, List.map_append, List.nodup_append] at h
    have hne : entry.1 ≠ name :=
      h.2.2 entry.1 (List.mem_map_of_mem hentry) name (by simp)
    simpa using hne.symm

/-- A table with distinct names that are the given ones lists them. -/
theorem lists_of_nodup {table : SymbolTable} {names : List String}
    (hnodup : (table.entries.map Prod.fst).Nodup)
    (hnames : (table.entries.map Prod.fst).Perm names) : table.Lists names := by
  have hperm : table.toSortedList.Perm table.entries := List.mergeSort_perm _ _
  have honce : (table.toSortedList.map Prod.fst).Nodup :=
    (hperm.map Prod.fst).nodup_iff.mpr hnodup
  refine ⟨hnames, hnodup, fun name address => ?_, honce, ?_⟩
  · rw [hperm.mem_iff, lookup_eq_some_iff hnodup]
  · have hprecedes : table.toSortedList.Pairwise fun first second => precedes first second :=
      List.pairwise_mergeSort precedes_trans precedes_total table.entries
    -- entries at one address have different names
    refine hprecedes.imp₂ ?_ (List.pairwise_map.mp honce)
    intro first second hle hne
    rcases precedes_iff.mp hle with hlt | ⟨heq, hle⟩
    · exact .inl hlt
    · refine .inr ⟨heq, ?_⟩
      by_contra hnot
      exact hne (String.le_antisymm hle (String.not_lt.mp hnot))

end SymbolTable

/-! ### The symbol stage -/

namespace SymbolTable

/-- What the symbol stage reports: what is wrong with names, or else the labels without an
    address. -/
theorem notices_build (root : Node) :
    (build root).notices =
      if root.nameNotices ≠ [] then root.nameNotices
      else (Node.unaddressed root.children).map fun label =>
        label.notice (.unaddressedLabel label.text) := by
  unfold build
  split
  case h_1 hnames => simp [hnames, Binder.notices, Binder.dangling_ofProgram]
  case h_2 hnames => rw [if_pos hnames]

/-- All that the symbol stage reports is an error. -/
theorem isError_of_mem_build {root : Node} {notice : Notice}
    (h : notice ∈ (build root).notices) : notice.isError := by
  rw [notices_build] at h
  split at h
  case isTrue => exact Node.isError_of_mem_nameNotices h
  case isFalse =>
    obtain ⟨label, -, rfl⟩ := List.mem_map.mp h
    rfl

/-- A table is made exactly if nothing is reported. -/
theorem exists_outcome_build_iff {root : Node} :
    (∃ table, (build root).outcome = .ok table) ↔ (build root).notices = [] := by
  constructor
  · -- all that is reported is an error, and a table needs none
    rintro ⟨table, htable⟩
    have herrors := (StageResult.outcome_eq_ok_iff.mp htable).1
    rw [StageResult.errors, List.countP_eq_length.mpr fun _ => isError_of_mem_build] at herrors
    exact List.eq_nil_of_length_eq_zero herrors
  · intro hnone
    refine ⟨_, StageResult.outcome_eq_ok_iff.mpr ⟨?_, rfl⟩⟩
    rw [StageResult.errors, hnone, List.countP_nil]

/-- The table of a program has the names that are defined in it. -/
theorem lists_of_outcome_build {root : Node} {table : SymbolTable} (hprogram : root.IsProgram)
    (h : (build root).outcome = .ok table) : table.Lists (root.definitions.map Node.text) := by
  obtain ⟨hnames, -, htable⟩ := outcome_build_eq_ok h
  have hdistinct : (root.definitions.map Node.text).Nodup :=
    (Node.nameNotices_eq_nil_iff.mp hnames).1
  have hsublist := Binder.bound_ofProgram_sublist root
  have hbound : ((Binder.ofProgram root).bound.map Prod.fst).Nodup := hdistinct.sublist hsublist
  have hentries : table.entries.map Prod.fst =
      ((Binder.ofProgram root).bound.map Prod.fst).reverse := by
    rw [htable, entries_ofList hbound, List.map_reverse]
  have hnodup : (table.entries.map Prod.fst).Nodup := by
    rw [hentries]
    exact List.nodup_reverse.mpr hbound
  refine lists_of_nodup hnodup ((List.perm_ext_iff_of_nodup hnodup hdistinct).mpr fun name => ?_)
  constructor
  · intro hname
    rw [hentries, List.mem_reverse] at hname
    exact hsublist.subset hname
  · -- a definition is bound, since the walk has left no label without an address
    intro hname
    obtain ⟨label, hlabel, rfl⟩ := List.mem_map.mp hname
    have hkind : label.kind = .labelDefinition := by simpa using (List.mem_filter.mp hlabel).2
    obtain ⟨before, after, hchildren⟩ :=
      List.append_of_mem (hprogram.mem_children_of_mem_definitions hlabel)
    obtain ⟨_, _, _, _, _, _, hlookup⟩ := lookup_definition h hchildren hkind
    exact isSome_lookup_iff.mp (by rw [hlookup]; rfl)

/-- **The symbol stage accepts exactly the well-labelled programs.** For a tree that comes from a
    source it reports the names that are defined again or never; if there are none, it reports the
    labels behind which the region or the program ends. It makes a table if and only if it reports
    nothing, and the table lists all names that are defined. -/
theorem build_of_parse {source : String} {result : StageResult Node} {tree : Node}
    (hparse : parse source = .ok result) (hout : result.outcome = .ok tree) :
    (build tree).notices =
        (if tree.misnamed ≠ [] then tree.misnamed
        else (Node.unaddressed tree.children).map fun label =>
          label.notice (.unaddressedLabel label.text)) ∧
      ((∃ table, (build tree).outcome = .ok table) ↔ (build tree).notices = []) ∧
      ∀ table, (build tree).outcome = .ok table →
        table.Lists (tree.definitions.map Node.text) := by
  refine ⟨?_, exists_outcome_build_iff, fun table htable => ?_⟩
  · rw [← Node.nameNotices_eq_misnamed]
    exact notices_build tree
  · exact lists_of_outcome_build (Node.isProgram_of_parse hparse hout) htable

/-- A label that is defined again and one that is never defined are reported, and then not the one
    behind which the program ends. -/
theorem build_of_parse_misnamed :
    let source := ".orig x3000\nA halt\nA ld r0, B\n.end\nC"
    ∃ result tree, parse source = .ok result ∧ result.outcome = .ok tree ∧
      (build tree).notices.map (fun notice => (notice.problem.message, notice.location?.map
        Location.line)) =
        [("label `A` was defined multiple times", some 3), ("label `B` is not defined", some 3)] ∧
      ¬ ∃ table, (build tree).outcome = .ok table := by
  intro source
  have hfound : (parse source).map (fun result => (result.errors, result.product.misnamed.map
      fun notice => (notice.problem.message, notice.location?.map Location.line))) =
      .ok (0, [("label `A` was defined multiple times", some 3),
        ("label `B` is not defined", some 3)]) := by decide +kernel
  obtain ⟨result, hparse, hpair⟩ := map_eq_ok_iff.mp hfound
  obtain ⟨hnone, hmisnamed⟩ := Prod.mk.inj hpair
  have hout : result.outcome = .ok result.product :=
    StageResult.outcome_eq_ok_iff.mpr ⟨hnone, rfl⟩
  obtain ⟨hnotices, htable, -⟩ := build_of_parse hparse hout
  have hsome : result.product.misnamed ≠ [] := by
    intro hnil
    simp [hnil] at hmisnamed
  rw [if_pos hsome] at hnotices
  refine ⟨result, result.product, hparse, hout, by rw [hnotices, hmisnamed], ?_⟩
  rw [htable, hnotices]
  exact hsome

end SymbolTable

end LC3
