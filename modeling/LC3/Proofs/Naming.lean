import LC3.Proofs.Alike
import Mathlib.Data.Set.Function

namespace LC3

/-!
# Renaming labels

A renaming of the labels of a program that keeps them apart changes nothing that symbol resolution
finds: the same definitions are duplicates, the same uses are undefined, and the labels have the
same addresses under their new names.

* `Node.Renames` — the label of a node is that of another one, renamed.
* `Node.labelNames` — the names of labels in a tree.
* `Node.forall₂_nameNotices` — the same is wrong about the names.
* `Binder.Renamed` — the walk under the new names.
* `SymbolTable.errors_build_renamed`, `SymbolTable.lookup_build_renamed` — the symbol table.
-/

namespace Node

/-- Whether a node defines a label or uses one. -/
def isLabel (node : Node) : Bool :=
  node.kind = .labelDefinition || node.kind = .labelReference

/-- A label is no node for flags. -/
theorem isFlags_of_isLabel {node : Node} (h : node.isLabel) : node.isFlags = false := by
  unfold isLabel at h
  unfold isFlags
  cases hkind : node.kind <;> simp_all

/-- Whether the label of a node is that of another one, renamed. -/
def Renames (rename : String → String) (node other : Node) : Prop :=
  node.isLabel → other.text = rename node.text

/-- The names of the labels in a tree, where they are defined and where they are used. -/
def labelNames (root : Node) : List String :=
  (root.walk.filter isLabel).map text

variable {rename : String → String} {root root' node other : Node} {nodes others : List Node}

theorem mem_labelNames (hnode : node ∈ root.walk) (hlabel : node.isLabel) :
    node.text ∈ root.labelNames :=
  List.mem_map_of_mem (List.mem_filter.mpr ⟨hnode, hlabel⟩)

theorem isLabel_of_mem_definitions (h : node ∈ root.definitions) : node.isLabel := by
  have hkind : node.kind = .labelDefinition := by simpa using (List.mem_filter.mp h).2
  simp [isLabel, hkind]

theorem isLabel_of_mem_references (h : node ∈ root.references) : node.isLabel := by
  have hkind : node.kind = .labelReference := by simpa using (List.mem_filter.mp h).2
  simp [isLabel, hkind]

/-- Recording formats renames nothing. -/
theorem Renames.recordFormat (h : node.Renames rename other) :
    node.recordFormat.Renames rename other.recordFormat := by
  intro hlabel
  have htext : ∀ node : Node, node.recordFormat.text = node.text := by
    intro node
    rw [text, text, token?_recordFormat]
  rw [htext, htext]
  apply h
  rcases recordFormat_cases node with hsame | ⟨_, _, _, _, _, hrecorded⟩
  · rwa [hsame] at hlabel
  · rw [hrecorded] at hlabel
    cases hlabel

/-! ### Names -/

/-- Labels one by one under their new names. -/
theorem forall₂_text_of_renames (h : List.Forall₂ (Renames rename) nodes others)
    (hlabels : ∀ node ∈ nodes, node.isLabel) :
    List.Forall₂ (fun node other => other.text = rename node.text) nodes others := by
  induction h with
  | nil => exact .nil
  | cons hnode _ ih =>
    obtain ⟨hlabel, hlabels⟩ := List.forall_mem_cons.mp hlabels
    exact .cons (hnode hlabel) (ih hlabels)

/-- Nodes renamed one by one have renamed texts. -/
theorem map_text_of_renames
    (h : List.Forall₂ (fun node other => other.text = rename node.text) nodes others) :
    others.map text = (nodes.map text).map rename := by
  induction h with
  | nil => rfl
  | cons hnode _ ih => simp [hnode, ih]

/-- A name that is not looked up is not there. -/
private theorem lookup_eq_none_iff {seen : List (String × Nat)} {name : String} :
    seen.lookup name = none ↔ name ∉ seen.map Prod.fst := by
  induction seen with
  | nil => simp
  | cons entry seen ih =>
    rw [List.lookup_cons]
    by_cases hname : name = entry.1
    · simp [hname]
    · rw [beq_false_of_ne hname, List.map_cons, List.mem_cons, not_or]
      exact ih.trans (and_iff_right hname).symm

/-- A renamed name is among the renamed ones only if the name has been among the others. -/
private theorem mem_map_rename_iff {names : Set String} (hinj : Set.InjOn rename names)
    {name : String} {seen : List String} (hname : name ∈ names) (hseen : ∀ a ∈ seen, a ∈ names) :
    rename name ∈ seen.map rename ↔ name ∈ seen := by
  constructor
  · intro h
    obtain ⟨other, hother, hsame⟩ := List.mem_map.mp h
    rwa [hinj hname (hseen other hother) hsame.symm]
  · exact List.mem_map_of_mem

/-- What is wrong with a name, and the same under another name. Where labels are defined and used
    does not matter. -/
inductive RenamedNotice (rename : String → String) : Notice → Notice → Prop where
  | duplicate (node other : Node) (name : String) (line line' : Nat) :
    RenamedNotice rename (node.notice (.duplicateLabel name line))
      (other.notice (.duplicateLabel (rename name) line'))
  | undefined (node other : Node) (name : String) :
    RenamedNotice rename (node.notice (.undefinedLabel name))
      (other.notice (.undefinedLabel (rename name)))

/-- The same definitions are duplicates under other names. -/
theorem forall₂_duplicateNotices {names : Set String} (hinj : Set.InjOn rename names)
    {seen seen' : List (String × Nat)}
    (h : List.Forall₂ (fun node other => other.text = rename node.text) nodes others)
    (hnodes : ∀ node ∈ nodes, node.text ∈ names) (hseen : ∀ name ∈ seen.map Prod.fst, name ∈ names)
    (hsame : seen'.map Prod.fst = (seen.map Prod.fst).map rename) :
    List.Forall₂ (RenamedNotice rename) (duplicateNotices seen nodes)
      (duplicateNotices seen' others) := by
  -- what has been seen stays the same under the new names, though first seen elsewhere
  induction h generalizing seen seen' with
  | nil => exact .nil
  | @cons node other _ _ hnode _ ih =>
    obtain ⟨hfirst, hnodes⟩ := List.forall_mem_cons.mp hnodes
    -- a new name has been seen exactly if the old one has
    have hnone : seen'.lookup other.text = none ↔ seen.lookup node.text = none := by
      rw [lookup_eq_none_iff, lookup_eq_none_iff, hsame, hnode,
        mem_map_rename_iff hinj hfirst hseen]
    unfold duplicateNotices
    cases hlookup : seen.lookup node.text with
    | none =>
      rw [hnone.mpr hlookup]
      exact ih hnodes (List.forall_mem_cons.mpr ⟨hfirst, hseen⟩) (by simp [hsame, hnode])
    | some first =>
      cases hlookup' : seen'.lookup other.text with
      | none =>
        rw [hnone.mp hlookup'] at hlookup
        cases hlookup
      | some first' =>
        rw [hnode]
        exact .cons (.duplicate ..) (ih hnodes hseen hsame)

/-- The same uses are undefined under other names. -/
private theorem forall₂_filter_undefined {names : Set String} (hinj : Set.InjOn rename names)
    {defined : List String}
    (h : List.Forall₂ (fun node other => other.text = rename node.text) nodes others)
    (hnodes : ∀ node ∈ nodes, node.text ∈ names) (hdefined : ∀ name ∈ defined, name ∈ names) :
    List.Forall₂ (fun node other => other.text = rename node.text)
      (nodes.filter fun node => !defined.contains node.text)
      (others.filter fun node => !(defined.map rename).contains node.text) := by
  induction h with
  | nil => exact .nil
  | @cons node other _ _ hnode _ ih =>
    obtain ⟨hfirst, hnodes⟩ := List.forall_mem_cons.mp hnodes
    have hmem : other.text ∈ defined.map rename ↔ node.text ∈ defined := by
      rw [hnode, mem_map_rename_iff hinj hfirst hdefined]
    -- a name that is defined is not among the undefined, under either name
    by_cases hnode' : node.text ∈ defined
    · have hother : other.text ∈ defined.map rename := hmem.mpr hnode'
      rw [List.filter_cons_of_neg (by simpa using hnode'),
        List.filter_cons_of_neg (by simpa using hother)]
      exact ih hnodes
    · have hother : other.text ∉ defined.map rename := fun h => hnode' (hmem.mp h)
      rw [List.filter_cons_of_pos (by simpa using hnode'),
        List.filter_cons_of_pos (by simpa using hother)]
      exact .cons hnode (ih hnodes)

section Tree

variable (h : root.Alike (Renames rename) root')

include h

/-- The definitions of the trees are renamed one by one. -/
theorem forall₂_definitions : List.Forall₂ (fun node other => other.text = rename node.text)
    root.definitions root'.definitions :=
  forall₂_text_of_renames (h.forall₂_filter_walk .labelDefinition)
    fun _ => isLabel_of_mem_definitions

/-- The references of the trees are renamed one by one. -/
theorem forall₂_references : List.Forall₂ (fun node other => other.text = rename node.text)
    root.references root'.references :=
  forall₂_text_of_renames (h.forall₂_filter_walk .labelReference)
    fun _ => isLabel_of_mem_references

/-- **The same is wrong about the names of labels** under other names. -/
theorem forall₂_nameNotices (hinj : Set.InjOn rename {name | name ∈ root.labelNames}) :
    List.Forall₂ (RenamedNotice rename) root.nameNotices root'.nameNotices := by
  have hdefinitions : ∀ node ∈ root.definitions, node.text ∈ root.labelNames :=
    fun node hnode => mem_labelNames (List.mem_filter.mp hnode).1 (isLabel_of_mem_definitions hnode)
  have hreferences : ∀ node ∈ root.references, node.text ∈ root.labelNames :=
    fun node hnode => mem_labelNames (List.mem_filter.mp hnode).1 (isLabel_of_mem_references hnode)
  have hduplicates : List.Forall₂ (RenamedNotice rename) (duplicateNotices [] root.definitions)
      (duplicateNotices [] root'.definitions) :=
    forall₂_duplicateNotices hinj (forall₂_definitions h) hdefinitions (by simp) rfl
  have hundefined := forall₂_filter_undefined hinj (forall₂_references h) hreferences
    (List.forall_mem_map.mpr hdefinitions)
  refine List.rel_append hduplicates ?_
  rw [undefinedNotices, undefinedNotices, map_text_of_renames (forall₂_definitions h),
    List.forall₂_map_left_iff, List.forall₂_map_right_iff]
  refine hundefined.imp fun node other htext => ?_
  rw [htext]
  exact .undefined ..

end Tree

end Node

/-! ### Addresses -/

/-- Counters move alike over nodes of the same kinds. -/
theorem Counter.step_congr {node other : Node} (hkind : other.kind = node.kind)
    (hchildren : other.children.map Node.kind = node.children.map Node.kind) (counter : Counter) :
    counter.step other = counter.step node := by
  have hhead : other.children.head?.map Node.kind = node.children.head?.map Node.kind := by
    rw [← List.head?_map, ← List.head?_map, hchildren]
  simp only [Counter.step, Node.wordCount, hkind, hhead]

namespace Binder

open Node

variable {rename : String → String} {binder binder' : Binder} {node other : Node}
  {nodes others : List Node}

/-- The same walk under other names. -/
structure Renamed (rename : String → String) (binder binder' : Binder) : Prop where
  counter : binder'.counter = binder.counter
  pending : List.Forall₂ (fun node other => other.text = rename node.text) binder.pending
    binder'.pending
  bound : binder'.bound = binder.bound.map (Prod.map rename id)
  dangling : binder'.dangling.length = binder.dangling.length

/-- What a node does to labels that wait does not depend on their names. -/
theorem Renamed.visit (h : Renamed rename binder binder')
    (halike : node.Alike (Renames rename) other) :
    Renamed rename (binder.visit node) (binder'.visit other) := by
  have hcounter : binder'.counter.step other = binder.counter.step node := by
    rw [Counter.step_congr halike.kind_eq (map_kind_of_alike halike.children), h.counter]
  rcases visit_kinds node with hkind | hkind | hkind
  · -- at the end of a region, labels that wait are left without an address
    have hkind' : other.kind = .directive .endRegion := halike.kind_eq.trans hkind
    rw [visit_endRegion _ hkind, visit_endRegion _ hkind']
    refine ⟨hcounter, .nil, h.bound, ?_⟩
    simp [h.dangling, h.pending.length_eq]
  · -- a statement with an address gives it to all the labels that wait
    have hkind' : isAddressed other.kind := by rwa [halike.kind_eq]
    rw [visit_isAddressed _ hkind, visit_isAddressed _ hkind']
    refine ⟨hcounter, .nil, ?_, h.dangling⟩
    -- the address is the same, so only the names differ
    have hnamed : binder'.pending.map (fun label =>
        (label.text, (binder'.counter.step other).address)) =
        (binder.pending.map fun label =>
          (label.text, (binder.counter.step node).address)).map (Prod.map rename id) := by
      rw [hcounter]
      have hpending := h.pending
      generalize binder.pending = pending at hpending
      generalize binder'.pending = pending' at hpending
      induction hpending with
      | nil => rfl
      | cons hlabel _ ih => simp [hlabel, ih]
    rw [List.map_append, h.bound, hnamed]
  · -- anything else is passed, but a definition starts to wait
    have hkind' : passes other := by
      unfold passes at hkind ⊢
      rwa [halike.kind_eq]
    rw [visit_passes _ hkind, visit_passes _ hkind']
    refine ⟨hcounter, List.rel_append h.pending ?_, h.bound, h.dangling⟩
    by_cases hlabel : node.kind = .labelDefinition
    · have hlabel' : other.kind = .labelDefinition := halike.kind_eq.trans hlabel
      have htext : other.text = rename node.text := halike.top (by simp [isLabel, hlabel])
      simpa [hlabel, hlabel'] using htext
    · have hlabel' : other.kind ≠ .labelDefinition := by rwa [halike.kind_eq]
      simp [hlabel, hlabel']

/-- Nodes do to labels that wait what they do under other names. -/
theorem Renamed.foldl_visit (h : Renamed rename binder binder')
    (halike : List.Forall₂ (Alike (Renames rename)) nodes others) :
    Renamed rename (nodes.foldl Binder.visit binder) (others.foldl Binder.visit binder') := by
  induction halike generalizing binder binder' with
  | nil => exact h
  | cons hnode _ ih => exact ih (h.visit hnode)

/-- **Labels have the same addresses under other names.** -/
theorem renamed_ofProgram {root root' : Node} (h : root.Alike (Renames rename) root') :
    Renamed rename (ofProgram root) (ofProgram root') := by
  have hstart : Renamed rename start start := ⟨rfl, .nil, rfl, rfl⟩
  have hlast := hstart.foldl_visit h.children
  refine ⟨hlast.counter, .nil, hlast.bound, ?_⟩
  show (_ ++ _ : List Node).length = (_ ++ _ : List Node).length
  rw [List.length_append, List.length_append, hlast.dangling, hlast.pending.length_eq]

end Binder

namespace SymbolTable

open Node

variable {rename : String → String} {root root' : Node}

/-- The errors of symbol resolution are those of names; without them, the labels that no address is
    found for. -/
theorem errors_build (root : Node) : (build root).errors =
    if root.nameNotices = [] then (Binder.ofProgram root).dangling.length
    else root.nameNotices.length := by
  unfold build
  split
  case h_1 hnames =>
    -- the names are right, so that only the labels left without an address count
    have hall : ∀ notice ∈ (Binder.ofProgram root).notices, notice.isError := by
      intro notice hnotice
      obtain ⟨label, -, rfl⟩ := List.mem_map.mp hnotice
      rfl
    rw [if_pos hnames, StageResult.errors, List.countP_eq_length.mpr hall, Binder.notices,
      List.length_map]
  case h_2 notices hnames =>
    -- the names are wrong, and addresses have not been looked for
    rw [if_neg hnames, StageResult.errors,
      List.countP_eq_length.mpr fun _ => isError_of_mem_nameNotices]

/-- **Symbol resolution finds as many errors under other names.** -/
theorem errors_build_renamed (h : root.Alike (Renames rename) root')
    (hinj : Set.InjOn rename {name | name ∈ root.labelNames}) :
    (build root').errors = (build root).errors := by
  have hlength : root'.nameNotices.length = root.nameNotices.length :=
    (forall₂_nameNotices h hinj).length_eq.symm
  have hnames : root'.nameNotices = [] ↔ root.nameNotices = [] := by
    rw [← List.length_eq_zero_iff, hlength, List.length_eq_zero_iff]
  have hdangling := (Binder.renamed_ofProgram h).dangling
  rw [errors_build, errors_build]
  simp only [hnames, hlength, hdangling]

/-- Entries are found under other names if these are kept apart. -/
private theorem lookup_map_rename {names : Set String} (hinj : Set.InjOn rename names)
    {entries : List (String × Word)} (hentries : ∀ name ∈ entries.map Prod.fst, name ∈ names)
    {name : String} (hname : name ∈ names) :
    (entries.map (Prod.map rename id)).lookup (rename name) = entries.lookup name := by
  induction entries with
  | nil => rfl
  | cons entry entries ih =>
    obtain ⟨hfirst, hentries⟩ := List.forall_mem_cons.mp hentries
    have hsame : (rename name == rename entry.1) = (name == entry.1) := by
      rw [Bool.eq_iff_iff, beq_iff_eq, beq_iff_eq, hinj.eq_iff hname hfirst]
    rw [List.map_cons, List.lookup_cons, List.lookup_cons, ih hentries, Prod.map_fst, hsame]
    rfl

/-- **Labels are found under other names.** -/
theorem lookup_build_renamed (h : root.Alike (Renames rename) root')
    (hinj : Set.InjOn rename {name | name ∈ root.labelNames}) {table table' : SymbolTable}
    (htable : (build root).outcome = .ok table) (htable' : (build root').outcome = .ok table')
    {name : String} (hname : name ∈ root.labelNames) :
    table'.lookup (rename name) = table.lookup name := by
  obtain ⟨hnames, -, rfl⟩ := outcome_build_eq_ok htable
  obtain ⟨hnames', -, rfl⟩ := outcome_build_eq_ok htable'
  -- without duplicates, both tables hold what the walks have bound, entry by entry
  have hsublist := Binder.bound_ofProgram_sublist root
  have hnodup : ((Binder.ofProgram root).bound.map Prod.fst).Nodup :=
    (nameNotices_eq_nil_iff.mp hnames).1.sublist hsublist
  have hnodup' : ((Binder.ofProgram root').bound.map Prod.fst).Nodup :=
    (nameNotices_eq_nil_iff.mp hnames').1.sublist (Binder.bound_ofProgram_sublist root')
  -- what is bound are definitions of the tree
  have hentries : ∀ name ∈ (Binder.ofProgram root).bound.reverse.map Prod.fst,
      name ∈ root.labelNames := by
    intro name hmem
    rw [List.map_reverse, List.mem_reverse] at hmem
    obtain ⟨label, hlabel, rfl⟩ := List.mem_map.mp (hsublist.subset hmem)
    exact mem_labelNames (List.mem_filter.mp hlabel).1 (isLabel_of_mem_definitions hlabel)
  rw [lookup, lookup, entries_ofList hnodup, entries_ofList hnodup',
    (Binder.renamed_ofProgram h).bound, ← List.map_reverse]
  exact lookup_map_rename hinj hentries hname

end SymbolTable

end LC3
