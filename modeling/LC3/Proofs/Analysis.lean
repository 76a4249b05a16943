import LC3.Region

namespace LC3

/-!
# The analysis of a program

What an analysis without errors says about a program, and what recording formats leaves alone.

* `Node.isPlaced`, `Node.isOrigin` — statements that place words, and those that open a region.
* `Node.error?_eq_none` — when no error is found, each statement is right where it stands.
* `Node.regionNotices_eq_warning` — and at most a region that is never closed is warned of.
* `Node.exists_origin_of_isPlaced` — so a `.ORIG` precedes every statement that places words.
* `Node.regionNotices_map_recordFormat` — recording formats changes nothing that is found.
-/

namespace Node

/-- Whether a node places words behind a load address: an instruction or a directive of memory. -/
def isPlaced (node : Node) : Bool :=
  match node.kind with
  | .instruction _ _ _ => true
  | .directive directive => directive.isMemory
  | _ => false

/-- Whether a node sets the load address. -/
def isOrigin (node : Node) : Bool :=
  node.kind = .directive .orig

/-- The directive `.ORIG` sets the load address, and nothing else does. -/
theorem isOrigin_iff {node : Node} : node.isOrigin ↔ node.kind = .directive .orig := by
  simp [isOrigin]

/-- Everything that is wrong about a statement is an error. -/
theorem countP_statementNotices (region : Region) (node : Node) :
    (statementNotices region node).countP Notice.isError =
      (region.error? node.kind).toList.length + node.formatError?.toList.length := by
  rw [statementNotices, List.countP_map, List.countP_eq_length.mpr, List.length_append]
  intro error _
  rfl

/-- No error is found exactly if each statement is right where it stands and has operands of one of
    its formats. -/
theorem countP_regionNotices_cons_iff {region : Region} {node : Node} {nodes : List Node} :
    (regionNotices region (node :: nodes)).countP Notice.isError = 0 ↔
      region.error? node.kind = none ∧ node.formatError? = none ∧
        (regionNotices (region.after node) nodes).countP Notice.isError = 0 := by
  rw [regionNotices, List.countP_append, countP_statementNotices, Nat.add_eq_zero_iff,
    Nat.add_eq_zero_iff]
  simp [and_assoc]

/-- The errors of some statements are those of the first ones, and those of the others behind
    them. -/
theorem countP_regionNotices_append (region : Region) (first rest : List Node) :
    (regionNotices region (first ++ rest)).countP Notice.isError =
      (regionNotices region first).countP Notice.isError +
        (regionNotices (first.foldl Region.after region) rest).countP Notice.isError := by
  induction first generalizing region with
  | nil =>
    have hnone : (regionNotices region []).countP Notice.isError = 0 := by
      cases region <;> rfl
    rw [hnone, Nat.zero_add]
    rfl
  | cons node first ih =>
    rw [List.cons_append, regionNotices, regionNotices, List.countP_append, List.countP_append, ih,
      List.foldl_cons, Nat.add_assoc]

/-- When the analysis finds no error, it finds at most that a region is open behind the last
    statement. -/
theorem regionNotices_eq_warning {region : Region} {nodes : List Node}
    (h : (regionNotices region nodes).countP Notice.isError = 0) :
    regionNotices region nodes = (nodes.foldl Region.after region).warning?.toList := by
  induction nodes generalizing region with
  | nil => rfl
  | cons node nodes ih =>
    obtain ⟨hplace, hformat, hrest⟩ := countP_regionNotices_cons_iff.mp h
    have hnode : statementNotices region node = [] := by
      rw [statementNotices, hplace, hformat]
      rfl
    rw [regionNotices, hnode, ih hrest, List.nil_append, List.foldl_cons]

/-- When the analysis finds no error, each statement is right where it stands. -/
theorem error?_eq_none {region : Region} {before after : List Node} {node : Node}
    (h : (regionNotices region (before ++ node :: after)).countP Notice.isError = 0) :
    (before.foldl Region.after region).error? node.kind = none := by
  rw [countP_regionNotices_append, Nat.add_eq_zero_iff] at h
  exact (countP_regionNotices_cons_iff.mp h.2).1

/-- When the analysis finds no error, each statement has operands of one of its formats. -/
theorem formatError?_eq_none {region : Region} {nodes : List Node} {node : Node}
    (h : (regionNotices region nodes).countP Notice.isError = 0) (hnode : node ∈ nodes) :
    node.formatError? = none := by
  obtain ⟨before, after, rfl⟩ := List.append_of_mem hnode
  rw [countP_regionNotices_append, Nat.add_eq_zero_iff] at h
  exact (countP_regionNotices_cons_iff.mp h.2).2.1

/-- An instruction without a format error has operands of one of its formats. -/
theorem exists_fits_of_instruction {node : Node} {mnemonic : Mnemonic} {format? : Option Format}
    {flags? : Option Flags} (hkind : node.kind = .instruction mnemonic format? flags?)
    (h : node.formatError? = none) : ∃ format ∈ mnemonic.formats, format.fits node.children := by
  have hmatched : (matchedFormat? mnemonic node.children).isSome := by
    simpa [formatError?, hkind, Option.isSome_iff_ne_none] using h
  obtain ⟨format, hformat⟩ := Option.isSome_iff_exists.mp hmatched
  exact ⟨format, List.mem_of_find?_eq_some hformat, by simpa using List.find?_some hformat⟩

/-- A directive without a format error has operands of one of its formats. -/
theorem exists_fits_of_directive {node : Node} {directive : Directive}
    (hkind : node.kind = .directive directive) (h : node.formatError? = none) :
    ∃ format ∈ directive.formats, format.fits node.children := by
  have hany : directive.formats.any (·.fits node.children) := by
    simpa only [formatError?, hkind, ite_eq_left_iff, reduceCtorEq, imp_false,
      Decidable.not_not] using h
  exact List.any_eq_true.mp hany

end Node

/-! ### Regions -/

namespace Region

/-- Inside a region there is a `.ORIG` in front. -/
theorem exists_origin_of_inside {region : Region} {nodes : List Node} {origin? : Option Location}
    (h : nodes.foldl after region = inside origin?) :
    region ≠ outside ∨ ∃ node ∈ nodes, node.isOrigin := by
  induction nodes generalizing region with
  | nil => exact .inl (by rintro rfl; cases h)
  | cons node nodes ih =>
    rcases ih h with hafter | ⟨origin, hmem, horigin⟩
    · -- if the region was not open before this node, the node has opened it
      cases region with
      | inside => exact .inl (by simp)
      | outside =>
        refine .inr ⟨node, List.mem_cons_self, ?_⟩
        simp only [after] at hafter
        split at hafter
        case h_1 hkind => simp [Node.isOrigin, hkind]
        case h_2 => exact absurd rfl hafter
    · exact .inr ⟨origin, List.mem_cons_of_mem _ hmem, horigin⟩

/-- Only a `.ORIG` opens a region. -/
theorem after_outside {node : Node} (h : ¬ node.isOrigin) : outside.after node = outside := by
  simp only [after]
  split
  case h_1 hkind => exact absurd (Node.isOrigin_iff.mpr hkind) h
  case h_2 => rfl

/-- Outside every region a statement that places words is an error. -/
theorem error?_outside_ne_none {node : Node} (h : node.isPlaced) :
    error? outside node.kind ≠ none := by
  unfold Node.isPlaced at h
  split at h
  case h_1 hkind => simp [hkind, error?]
  case h_2 directive hkind =>
    cases directive <;> simp [Directive.isMemory] at h <;> simp [hkind, error?]
  case h_3 => cases h

end Region

namespace Node

/-- When the analysis finds no error, a `.ORIG` precedes every statement that places words. -/
theorem exists_origin_of_isPlaced {before after : List Node} {node : Node}
    (h : (regionNotices .outside (before ++ node :: after)).countP Notice.isError = 0)
    (hplaced : node.isPlaced) : ∃ origin ∈ before, origin.isOrigin := by
  have herror := error?_eq_none h
  cases hregion : before.foldl Region.after .outside with
  | outside =>
    rw [hregion] at herror
    exact absurd herror (Region.error?_outside_ne_none hplaced)
  | inside =>
    rcases Region.exists_origin_of_inside hregion with h | h
    · exact absurd rfl h
    · exact h

/-! ### Recording formats -/

/-- Recording a format changes at most the format of an instruction. -/
theorem recordFormat_cases (node : Node) :
    node.recordFormat = node ∨
      ∃ mnemonic recorded? flags? format, node.kind = .instruction mnemonic recorded? flags? ∧
        node.recordFormat = { node with kind := .instruction mnemonic (some format) flags? } := by
  unfold recordFormat
  split
  case h_1 mnemonic recorded? flags? hkind =>
    split
    case h_1 format _ => exact .inr ⟨mnemonic, recorded?, flags?, format, hkind, rfl⟩
    case h_2 => exact .inl rfl
  case h_2 => exact .inl rfl

@[simp] theorem children_recordFormat (node : Node) :
    node.recordFormat.children = node.children := by
  rcases recordFormat_cases node with h | ⟨_, _, _, _, _, h⟩ <;> rw [h]

@[simp] theorem token?_recordFormat (node : Node) : node.recordFormat.token? = node.token? := by
  rcases recordFormat_cases node with h | ⟨_, _, _, _, _, h⟩ <;> rw [h]

/-- An instruction for which no format is recorded, or one of its own. Trees that come from a source
    record none, and `recordFormat` keeps to the formats of the mnemonic. -/
def RecordsOwnFormat (node : Node) : Prop :=
  ∀ mnemonic recorded flags?, node.kind = .instruction mnemonic (some recorded) flags? →
    recorded ∈ mnemonic.formats

/-- Recording formats records those of the instruction. -/
theorem RecordsOwnFormat.recordFormat {node : Node} (h : node.RecordsOwnFormat) :
    node.recordFormat.RecordsOwnFormat := by
  unfold Node.recordFormat
  split
  case h_2 => exact h
  case h_1 mnemonic recorded? flags? hkind =>
    split
    case h_2 => exact h
    case h_1 format hmatched =>
      intro mnemonic' recorded flags' hkind'
      obtain ⟨rfl, hsome, -⟩ := Kind.instruction.inj hkind'
      obtain rfl := Option.some.inj hsome
      exact List.mem_of_find?_eq_some hmatched

/-- Recording the format of a statement leaves alone what is wrong with it. -/
theorem statementNotices_recordFormat (region : Region) (node : Node) :
    statementNotices region node.recordFormat = statementNotices region node := by
  rcases recordFormat_cases node with h | ⟨_, _, _, _, hkind, h⟩
  · rw [h]
  · rw [h]
    cases region <;> simp [statementNotices, formatError?, Region.error?, hkind, location?]

/-- Recording the format of a statement leaves its region alone. -/
theorem after_recordFormat (region : Region) (node : Node) :
    region.after node.recordFormat = region.after node := by
  rcases recordFormat_cases node with h | ⟨_, _, _, _, hkind, h⟩
  · rw [h]
  · rw [h]
    cases region <;> simp [Region.after, hkind]

/-- **Recording formats changes nothing that is found.** -/
theorem regionNotices_map_recordFormat (region : Region) (nodes : List Node) :
    regionNotices region (nodes.map recordFormat) = regionNotices region nodes := by
  induction nodes generalizing region with
  | nil => rfl
  | cons node nodes ih =>
    rw [List.map_cons, regionNotices, regionNotices, statementNotices_recordFormat,
      after_recordFormat, ih]

end Node

end LC3
