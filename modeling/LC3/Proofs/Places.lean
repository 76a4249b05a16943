import LC3.Proofs.Binding
import LC3.Proofs.Spans
import LC3.Proofs.TreeTokens

namespace LC3

/-!
# The places of notices

A notice can be put into words if its place lies between two characters of the source. The tokens of
a source do, and whatever the stages in front of encoding find, they find at a token.

* `Location.LiesIn` — whether a line of the source is found at a location.
* `Lexer.liesIn_nth` — the tokens of a source lie in it.
* `Node.ComesFrom` — what is kept of a tree that comes from a source.
* `liesIn_of_parse`, `Node.ComesFrom.liesIn_analyze`, `Node.ComesFrom.liesIn_build` — what the stages
  find lies in the source.
-/

/-- Whether a location lies between two characters of a source, so that it is on a line of it. -/
def Location.LiesIn (location : Location) (source : String) : Prop :=
  (location.lineText? source).isSome

/-- Whether a notice lies in a source, if it lies anywhere. -/
def Notice.LiesIn (notice : Notice) (source : String) : Prop :=
  ∀ location ∈ notice.location?, location.LiesIn source

/-- Whether a node lies in a source, if it lies anywhere. -/
def Node.LiesIn (node : Node) (source : String) : Prop :=
  ∀ location ∈ node.location?, location.LiesIn source

variable {source : String}

/-- A notice that lies in its source can be put into words. -/
theorem Notice.LiesIn.exists_diagnose {notice : Notice} (h : notice.LiesIn source) :
    ∃ diagnostic, notice.diagnose source = .ok diagnostic := by
  unfold diagnose
  split
  case h_1 => exact ⟨_, rfl⟩
  case h_2 location hlocation =>
    obtain ⟨text, htext⟩ := Option.isSome_iff_exists.mp (h location hlocation)
    refine ⟨_, bind_eq_ok_iff.mpr ⟨⟨location.line, location.column, text⟩, ?_, rfl⟩⟩
    unfold Location.place
    rw [htext]

/-- Notices that lie in their source can be put into words. -/
theorem Notice.exists_diagnosed {notices : List Notice}
    (h : ∀ notice ∈ notices, notice.LiesIn source) : ∃ added, Diagnosed source notices added := by
  induction notices with
  | nil => exact ⟨[], .nil⟩
  | cons notice notices ih =>
    obtain ⟨hnotice, hnotices⟩ := List.forall_mem_cons.mp h
    obtain ⟨diagnostic, hdiagnostic⟩ := hnotice.exists_diagnose
    obtain ⟨added, hadded⟩ := ih hnotices
    exact ⟨diagnostic :: added, .cons hdiagnostic hadded⟩

/-! ### Tokens -/

/-- **Tokens lie in their source**, also those behind its end. -/
theorem Lexer.liesIn_nth (source : String) (n : Nat) :
    ((ofSource source).nth n).location.LiesIn source := by
  obtain ⟨front, rest, hsource, hlocation⟩ := exists_location_nth (stands_ofSource source) n
  have hcut : Text.cutBytes? (Text.byteLength front) source.toList = some (front, rest) :=
    Text.cutBytes?_eq_some_iff.mpr ⟨hsource, rfl⟩
  rw [hlocation, Location.LiesIn, Location.lineText?, Option.isSome_map]
  exact Option.isSome_iff_exists.mpr ⟨_, hcut⟩

/-- Tokens that stand at a place of a sequence are some of it. -/
theorem Grammar.Spells.exists_of_mem {tokens : Nat → Token} {start : Nat} {spelling : List Token}
    {token : Token} (h : Spells tokens start spelling) (hmem : token ∈ spelling) :
    ∃ n, tokens n = token := by
  induction spelling generalizing start with
  | nil => cases hmem
  | cons first rest ih =>
    obtain ⟨hfirst, hrest⟩ := h
    rcases List.mem_cons.mp hmem with rfl | hmem
    · exact ⟨start, hfirst⟩
    · exact ih hrest hmem

/-- The token of a source begins in the source. -/
theorem Lexer.liesIn_of_mem_tokens {token : Token} (h : token ∈ (ofSource source).tokens.1) :
    token.location.LiesIn source := by
  obtain ⟨n, rfl⟩ := (spells_take (ofSource source) _).exists_of_mem h
  exact liesIn_nth source n

/-- A syntax error is at a token of the line that it is about. -/
theorem Context.ReadsLines.exists_token {context : Context} (h : context.ReadsLines source) :
    ∀ fault ∈ context.errors,
      ∃ token ∈ (Lexer.ofSource source).tokens.1, fault.location = token.location := by
  intro fault hfault
  obtain ⟨line, hline, token, htoken, hplace⟩ := exists_mem_of_forall₂ h.errors hfault
  refine ⟨token, ?_, hplace⟩
  rw [← TokenLine.flatMap_tokens_ofSource]
  exact List.mem_flatMap.mpr ⟨line, (List.mem_filter.mp hline).1, htoken⟩

/-- Syntax errors lie in their source. -/
theorem liesIn_of_parse {result : StageResult Node} (hparse : parse source = .ok result) :
    ∀ notice ∈ result.notices, notice.LiesIn source := by
  obtain ⟨context, result', -, hreads, hparse', -, hnotices⟩ := exists_parse source
  obtain rfl := Except.ok.inj (hparse.symm.trans hparse')
  intro notice hnotice location hlocation
  rw [hnotices] at hnotice
  obtain ⟨fault, hfault, rfl⟩ := List.mem_map.mp hnotice
  obtain rfl := Option.some.inj hlocation
  obtain ⟨token, hmem, hplace⟩ := hreads.exists_token fault hfault
  show fault.location.LiesIn source
  rw [hplace]
  exact Lexer.liesIn_of_mem_tokens hmem

/-! ### Trees -/

namespace Node

/-- What a tree that comes from a source keeps through the stages: its nodes lie in the source, the
    top is no statement and has no flags below it, and formats belong to their instructions. -/
structure ComesFrom (root : Node) (source : String) : Prop where
  isRoot : root.kind = .root
  liesIn : ∀ node ∈ walkAll root.children, node.isFlags = false → node.LiesIn source
  plain : ∀ node ∈ root.children, node.isFlags = false
  recordsOwnFormat : ∀ node ∈ root.children, node.RecordsOwnFormat

/-- The tree that is read comes from its source. -/
theorem comesFrom_of_parse {result : StageResult Node} {root : Node}
    (hparse : parse source = .ok result) (hout : result.outcome = .ok root) :
    root.ComesFrom source := by
  obtain ⟨nodes, rfl, hcarries⟩ := exists_carries hparse hout
  obtain ⟨-, hproduct⟩ := StageResult.outcome_eq_ok_iff.mp hout
  refine ⟨rfl, fun node hnode hflags location hlocation => ?_, hcarries.plain, ?_⟩
  · -- the token of the node is one of the source
    obtain ⟨token, htoken, rfl⟩ := Option.map_eq_some_iff.mp hlocation
    exact Lexer.liesIn_of_mem_tokens (hcarries.mem_tokens hnode hflags htoken)
  · have hown := recordsOwnFormat_of_parse hparse
    rw [hproduct] at hown
    exact hown

/-- Recording a format leaves alone where a node lies, and whether it is flags. -/
theorem LiesIn.recordFormat {node : Node} (h : node.isFlags = false → node.LiesIn source) :
    node.recordFormat.isFlags = false → node.recordFormat.LiesIn source := by
  intro hflags location hlocation
  rw [isFlags_recordFormat] at hflags
  rw [location?, token?_recordFormat] at hlocation
  exact h hflags location hlocation

/-- Below statements with recorded formats are the same nodes as before. -/
theorem exists_mem_walkAll_recordFormat {nodes : List Node} {node : Node}
    (h : node ∈ walkAll (nodes.map recordFormat)) :
    ∃ before ∈ walkAll nodes, node = before ∨ node = before.recordFormat := by
  induction nodes with
  | nil => cases h
  | cons first nodes ih =>
    rw [List.map_cons, ← List.singleton_append, walkAll_append, walkAll_singleton,
      children_recordFormat] at h
    rw [← List.singleton_append, walkAll_append, walkAll_singleton]
    rcases List.mem_append.mp h with h | h
    · -- the root of a statement may have its format recorded, what is below it stays
      rcases List.mem_cons.mp h with rfl | h
      · exact ⟨first, by simp, .inr rfl⟩
      · exact ⟨node, by simp [h], .inl rfl⟩
    · obtain ⟨before, hbefore, hnode⟩ := ih h
      exact ⟨before, List.mem_append_right _ hbefore, hnode⟩

/-- What is wrong with statements is found at them or at the beginning of their region. -/
theorem liesIn_regionNotices {region : Region} {nodes : List Node}
    (horigin : ∀ origin?, region = .inside origin? →
      ∀ location ∈ origin?, location.LiesIn source)
    (h : ∀ node ∈ nodes, node.LiesIn source) :
    ∀ notice ∈ regionNotices region nodes, notice.LiesIn source := by
  induction nodes generalizing region with
  | nil =>
    intro notice hnotice
    -- at the end of the source, an open region is found where it begins
    cases region with
    | outside => cases hnotice
    | inside origin? =>
      obtain rfl := List.mem_singleton.mp hnotice
      exact horigin origin? rfl
  | cons node nodes ih =>
    obtain ⟨hnode, hnodes⟩ := List.forall_mem_cons.mp h
    -- the next region is the same, or begins at this node
    have hafter : ∀ origin?, region.after node = .inside origin? →
        ∀ location ∈ origin?, location.LiesIn source := by
      intro origin? hregion
      unfold Region.after at hregion
      split at hregion
      case h_1 =>
        split at hregion
        case h_1 =>
          obtain rfl := Region.inside.inj hregion
          exact hnode
        case h_2 => cases hregion
      case h_2 =>
        -- a region that ends leaves none, and anything else leaves it as it is
        split at hregion
        case h_1 => cases hregion
        case h_2 => exact horigin origin? hregion
    intro notice hnotice
    rcases List.mem_append.mp hnotice with hnotice | hnotice
    · obtain ⟨error, -, rfl⟩ := List.mem_map.mp hnotice
      exact hnode
    · exact ih hafter hnodes notice hnotice

namespace ComesFrom

variable {root : Node}

/-- The statements of the tree lie in the source. -/
theorem liesIn_child (h : root.ComesFrom source) {node : Node} (hnode : node ∈ root.children) :
    node.LiesIn source :=
  h.liesIn node ((sublist_walkAll root.children).subset hnode) (h.plain node hnode)

/-- Labels lie in the source, where they are defined and where they are used. -/
theorem liesIn_label (h : root.ComesFrom source) {node : Node} (hnode : node ∈ root.walk)
    (hkind : node.kind = .labelDefinition ∨ node.kind = .labelReference) :
    node.LiesIn source := by
  have hmem := mem_walkAll_of_mem_walk h.isRoot hnode (by rcases hkind with h | h <;> simp [h])
  refine h.liesIn node hmem (isFlags_eq_false_iff.mpr ?_)
  rcases hkind with hkind | hkind <;> simp [hkind]

/-- The analysis only records formats. -/
theorem analyze {root' : Node} (h : root.ComesFrom source) (hout : root.analyze.outcome = .ok root') :
    root'.ComesFrom source := by
  have hchildren := children_of_analyze hout
  have hkind : root'.kind = root.kind := by
    obtain ⟨-, rfl⟩ := StageResult.outcome_eq_ok_iff.mp hout
    rfl
  refine ⟨hkind.trans h.isRoot, ?_, ?_, recordsOwnFormat_of_analyze h.recordsOwnFormat hout⟩
  · rw [hchildren]
    intro node hnode
    obtain ⟨before, hbefore, rfl | rfl⟩ := exists_mem_walkAll_recordFormat hnode
    · exact h.liesIn _ hbefore
    · exact LiesIn.recordFormat (h.liesIn before hbefore)
  · rw [hchildren]
    intro node hnode
    obtain ⟨before, hbefore, rfl⟩ := List.mem_map.mp hnode
    rw [isFlags_recordFormat]
    exact h.plain before hbefore

/-- What is wrong with statements lies in the source. -/
theorem liesIn_analyze (h : root.ComesFrom source) :
    ∀ notice ∈ root.analyze.notices, notice.LiesIn source :=
  liesIn_regionNotices nofun fun _ => h.liesIn_child

end ComesFrom

/-- What is wrong with definitions is found at them. -/
theorem exists_of_mem_duplicateNotices {seen : List (String × Nat)} {nodes : List Node}
    {notice : Notice} (h : notice ∈ duplicateNotices seen nodes) :
    ∃ node ∈ nodes, ∃ firstLine, notice = node.notice (.duplicateLabel node.text firstLine) := by
  induction nodes generalizing seen with
  | nil => cases h
  | cons node nodes ih =>
    unfold duplicateNotices at h
    split at h
    case h_1 firstLine _ =>
      rcases List.mem_cons.mp h with rfl | h
      · exact ⟨node, List.mem_cons_self, firstLine, rfl⟩
      · obtain ⟨other, hother, hnotice⟩ := ih h
        exact ⟨other, List.mem_cons_of_mem _ hother, hnotice⟩
    case h_2 =>
      obtain ⟨other, hother, hnotice⟩ := ih h
      exact ⟨other, List.mem_cons_of_mem _ hother, hnotice⟩

end Node

/-- The labels that wait or are left without an address are among those visited. -/
theorem Binder.mem_of_foldl_visit {binder : Binder} {nodes : List Node} {label : Node}
    (h : label ∈ (nodes.foldl visit binder).pending ++ (nodes.foldl visit binder).dangling) :
    label ∈ binder.pending ++ binder.dangling ∨
      label ∈ nodes ∧ label.kind = .labelDefinition := by
  induction nodes generalizing binder with
  | nil => exact .inl h
  | cons node nodes ih =>
    rcases ih h with hvisit | hmem
    · rcases visit_kinds node with hkind | hkind | hkind
      · -- at the end of a region, what waits is left without an address
        rw [visit_endRegion _ hkind] at hvisit
        exact .inl (by simpa [or_comm] using hvisit)
      · -- nothing waits behind a statement with an address
        rw [visit_isAddressed _ hkind] at hvisit
        exact .inl (List.mem_append_right _ hvisit)
      · -- a definition starts to wait, anything else is passed
        rw [visit_passes _ hkind] at hvisit
        rcases List.mem_append.mp hvisit with hpending | hdangling
        · rcases List.mem_append.mp hpending with hpending | hnode
          · exact .inl (List.mem_append_left _ hpending)
          · obtain ⟨hmem, hlabel⟩ := List.mem_filter.mp hnode
            obtain rfl := List.mem_singleton.mp hmem
            exact .inr ⟨List.mem_cons_self, of_decide_eq_true hlabel⟩
        · exact .inl (List.mem_append_right _ hdangling)
    · exact .inr ⟨List.mem_cons_of_mem _ hmem.1, hmem.2⟩

/-- Whether an error names a label. -/
def AssemblyError.Names (error : AssemblyError) (name : String) : Prop :=
  match error with
  | duplicateLabel label _ | undefinedLabel label | unaddressedLabel label => label = name
  | _ => False

/-- What is wrong with labels is found at one of them, and the error names it. -/
theorem Node.exists_of_mem_build {root : Node} {notice : Notice}
    (h : notice ∈ (SymbolTable.build root).notices) :
    ∃ label ∈ root.walk, (label.kind = .labelDefinition ∨ label.kind = .labelReference) ∧
      ∃ error, error.Names label.text ∧ notice = label.notice error := by
  -- the names are looked at first, and addresses only if nothing is wrong with the names
  have hnames : notice ∈ root.nameNotices → ∃ label ∈ root.walk,
      (label.kind = .labelDefinition ∨ label.kind = .labelReference) ∧
        ∃ error, error.Names label.text ∧ notice = label.notice error := by
    intro hnotice
    rcases List.mem_append.mp hnotice with hnotice | hnotice
    · -- a definition that is a duplicate
      obtain ⟨label, hlabel, firstLine, hnotice⟩ := exists_of_mem_duplicateNotices hnotice
      obtain ⟨hmem, hkind⟩ := List.mem_filter.mp hlabel
      exact ⟨label, hmem, .inl (of_decide_eq_true hkind), .duplicateLabel label.text firstLine,
        rfl, hnotice⟩
    · -- a reference to no definition
      obtain ⟨label, hlabel, rfl⟩ := List.mem_map.mp hnotice
      obtain ⟨hmem, hkind⟩ := List.mem_filter.mp (List.mem_filter.mp hlabel).1
      exact ⟨label, hmem, .inr (of_decide_eq_true hkind), .undefinedLabel label.text, rfl, rfl⟩
  unfold SymbolTable.build at h
  split at h
  case h_2 => exact hnames h
  case h_1 =>
    obtain ⟨label, hlabel, rfl⟩ := List.mem_map.mp h
    have hlast : label ∈ (root.children.foldl Binder.visit .start).pending ++
        (root.children.foldl Binder.visit .start).dangling :=
      List.mem_append.mpr (List.mem_append.mp hlabel).symm
    rcases Binder.mem_of_foldl_visit hlast with hstart | ⟨hmem, hkind⟩
    · exact absurd hstart List.not_mem_nil
    · refine ⟨label, ?_, .inl hkind, .unaddressedLabel label.text, rfl, rfl⟩
      rw [walk_eq]
      exact List.mem_cons_of_mem _ ((sublist_walkAll root.children).subset hmem)

/-- What is wrong with labels lies in the source. -/
theorem Node.ComesFrom.liesIn_build {root : Node} (h : root.ComesFrom source) :
    ∀ notice ∈ (SymbolTable.build root).notices, notice.LiesIn source := by
  intro notice hnotice
  obtain ⟨label, hlabel, hkind, error, -, rfl⟩ := exists_of_mem_build hnotice
  exact h.liesIn_label hlabel hkind

end LC3
