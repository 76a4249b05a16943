import LC3.Proofs.Blocks

namespace LC3

/-!
# Trees that are alike

Trees that are alike have the same shape and the same kinds of nodes, and agree in some more of what
their nodes are. How many errors the analysis finds in a tree depends on no more than its shape and
its kinds.

* `Node.Alike` — trees with the same shape, whose nodes are related one by one.
* `Node.Alike.imp` — relations that say less.
* `Node.countP_regionNotices_alike` — the analysis finds as many errors in trees that are alike.
* `Node.Alike.recordFormat` — recording formats leaves them alike.
-/

namespace Node

variable {related weaker : Node → Node → Prop} {node other : Node} {nodes others : List Node}

/-! ### The relation -/

mutual

/-- Whether two trees have the same shape and the same kinds of nodes, and nodes that stand in the
    same place are related. -/
def Alike (related : Node → Node → Prop) : Node → Node → Prop
  | ⟨kind, token?, children⟩, other =>
    other.kind = kind ∧ related ⟨kind, token?, children⟩ other ∧
      AlikeAll related children other.children

/-- Whether trees are alike one by one. -/
def AlikeAll (related : Node → Node → Prop) : List Node → List Node → Prop
  | [], others => others = []
  | _ :: _, [] => False
  | node :: nodes, other :: others => node.Alike related other ∧ AlikeAll related nodes others

end

/-- Lists of trees are alike if they are so one by one. -/
theorem alikeAll_iff :
    AlikeAll related nodes others ↔ List.Forall₂ (Alike related) nodes others := by
  induction nodes generalizing others with
  | nil => simp [AlikeAll]
  | cons node nodes ih => cases others <;> simp [AlikeAll, ih]

/-- Two trees are alike if their roots are related and of one kind, and what is below them is alike.
    -/
theorem alike_iff : node.Alike related other ↔ other.kind = node.kind ∧ related node other ∧
    List.Forall₂ (Alike related) node.children other.children := by
  cases node
  rw [Alike, alikeAll_iff]

theorem Alike.kind_eq (h : node.Alike related other) : other.kind = node.kind :=
  (alike_iff.mp h).1

theorem Alike.top (h : node.Alike related other) : related node other :=
  (alike_iff.mp h).2.1

theorem Alike.children (h : node.Alike related other) :
    List.Forall₂ (Alike related) node.children other.children :=
  (alike_iff.mp h).2.2

mutual

/-- Trees that are alike are so by any relation that follows from theirs for nodes of them. -/
theorem Alike.imp : ∀ {node other : Node}, node.Alike related other →
    (∀ a ∈ node.walk, ∀ b, b.kind = a.kind → related a b → weaker a b) → node.Alike weaker other
  | ⟨kind, token?, children⟩, other, h, himp => by
    rw [Alike] at h ⊢
    obtain ⟨hkind, hrelated, hchildren⟩ := h
    simp only [walk, List.forall_mem_cons] at himp
    exact ⟨hkind, himp.1 other hkind hrelated, AlikeAll.imp hchildren himp.2⟩

/-- The relation has to be weaker only at the nodes of the trees. -/
theorem AlikeAll.imp : ∀ {nodes others : List Node}, AlikeAll related nodes others →
    (∀ a ∈ walkAll nodes, ∀ b, b.kind = a.kind → related a b → weaker a b) →
      AlikeAll weaker nodes others
  | [], _, h, _ => h
  | _ :: _, [], h, _ => h.elim
  | node :: nodes, other :: others, h, himp => by
    rw [AlikeAll] at h ⊢
    simp only [walkAll, List.forall_mem_append] at himp
    exact ⟨h.1.imp himp.1, AlikeAll.imp h.2 himp.2⟩

end

mutual

/-- Nodes of trees that are alike are related in pairs. -/
theorem Alike.forall₂_walk : ∀ {node other : Node}, node.Alike related other →
    List.Forall₂ (fun a b => b.kind = a.kind ∧ related a b) node.walk other.walk
  | ⟨kind, token?, children⟩, other, h => by
    rw [Alike] at h
    obtain ⟨hkind, hrelated, hchildren⟩ := h
    rw [walk, walk_eq other]
    exact .cons ⟨hkind, hrelated⟩ (AlikeAll.forall₂_walkAll hchildren)

/-- Lists of trees that are alike have nodes of one kind in the same places. -/
theorem AlikeAll.forall₂_walkAll : ∀ {nodes others : List Node}, AlikeAll related nodes others →
    List.Forall₂ (fun a b => b.kind = a.kind ∧ related a b) (walkAll nodes) (walkAll others)
  | [], _, h => by
    rw [AlikeAll] at h
    subst h
    exact .nil
  | _ :: _, [], h => h.elim
  | node :: nodes, other :: others, h => by
    rw [AlikeAll] at h
    rw [walkAll, walkAll]
    exact List.rel_append h.1.forall₂_walk (AlikeAll.forall₂_walkAll h.2)

end

/-- Nodes of a kind stand in the same places of trees that are alike. -/
theorem Alike.forall₂_filter_walk (h : node.Alike related other) (kind : Kind) :
    List.Forall₂ related (node.walk.filter (·.kind = kind))
      (other.walk.filter (·.kind = kind)) := by
  have hwalk := h.forall₂_walk
  generalize node.walk = nodes at hwalk
  generalize other.walk = others at hwalk
  induction hwalk with
  | nil => exact .nil
  | @cons a b _ _ hab _ ih =>
    by_cases ha : a.kind = kind
    · have hb : b.kind = kind := hab.1.trans ha
      simpa [ha, hb] using ⟨hab.2, ih⟩
    · have hb : b.kind ≠ kind := fun hb => ha (hab.1.symm.trans hb)
      simpa [ha, hb] using ih

/-! ### Kinds -/

/-- Trees that are alike have the same kinds. -/
theorem map_kind_of_alike (h : List.Forall₂ (Alike related) nodes others) :
    others.map kind = nodes.map kind := by
  induction h with
  | nil => rfl
  | cons hnode _ ih => rw [List.map_cons, List.map_cons, hnode.kind_eq, ih]

/-- Whether operands have a format depends on their kinds. -/
theorem fits_congr (h : others.map kind = nodes.map kind) (format : Format) :
    format.fits others = format.fits nodes := by
  unfold Format.fits
  generalize format.operands = operands
  induction operands generalizing nodes others with
  | nil => cases nodes <;> cases others <;> simp_all [Format.fitsClasses]
  | cons operand operands ih =>
    cases nodes with
    | nil => cases others <;> simp_all
    | cons node nodes =>
      cases others with
      | nil => simp at h
      | cons other others =>
        -- the first operands are of one kind, and the others are shorter lists
        rw [List.map_cons, List.map_cons] at h
        obtain ⟨hkind, hrest⟩ := List.cons.inj h
        rw [Format.fitsClasses, Format.fitsClasses, hkind, ih hrest]

/-- Which format of an instruction its operands have depends on their kinds. -/
theorem matchedFormat?_congr (h : others.map kind = nodes.map kind) (mnemonic : Mnemonic) :
    matchedFormat? mnemonic others = matchedFormat? mnemonic nodes := by
  simp only [matchedFormat?, fits_congr h]

/-- Whether a statement has operands of one of its formats depends on the kinds of nodes. -/
theorem Alike.isSome_formatError? (h : node.Alike related other) :
    other.formatError?.isSome = node.formatError?.isSome := by
  have hkinds := map_kind_of_alike h.children
  simp only [formatError?, h.kind_eq, fits_congr hkinds, matchedFormat?_congr hkinds]
  cases node.kind with
  | instruction mnemonic =>
    -- only the name of the instruction can differ
    dsimp only
    cases (matchedFormat? mnemonic node.children).isSome <;> rfl
  | _ => rfl

/-- Recording formats leaves trees alike, if it does not matter for the relation. -/
theorem Alike.recordFormat (h : node.Alike related other)
    (hrelated : related node other → related node.recordFormat other.recordFormat) :
    node.recordFormat.Alike related other.recordFormat := by
  have hmatched := matchedFormat?_congr (map_kind_of_alike h.children)
  refine alike_iff.mpr ⟨?_, hrelated h.top, ?_⟩
  · simp only [Node.recordFormat, h.kind_eq]
    cases hkind : node.kind with
    | instruction mnemonic recorded? flags? =>
      dsimp only
      rw [hmatched]
      cases matchedFormat? mnemonic node.children with
      | none => exact h.kind_eq
      | some format => rfl
    | _ => exact h.kind_eq
  · rw [children_recordFormat, children_recordFormat]
    exact h.children

/-! ### Analysis -/

/-- What is wrong about a statement where it stands depends on its kind and on whether a region is
    open. -/
theorem error?_congr {region region' : Region}
    (hregion : region' = .outside ↔ region = .outside) (kind : Kind) :
    region'.error? kind = region.error? kind := by
  cases region with
  | outside => rw [hregion.mpr rfl]
  | inside origin? =>
    cases region' with
    | outside => simp at hregion
    | inside origin?' =>
      cases kind with
      | directive directive => cases directive <;> rfl
      | _ => rfl

/-- Whether a region is open behind a node depends on the kind of the node and on whether one was
    open in front. -/
theorem after_eq_outside_congr {region region' : Region}
    (hregion : region' = .outside ↔ region = .outside) (hkind : other.kind = node.kind) :
    region'.after other = .outside ↔ region.after node = .outside := by
  cases region with
  | outside =>
    rw [hregion.mpr rfl]
    simp only [Region.after, hkind]
    split <;> simp
  | inside origin? =>
    cases region' with
    | outside => simp at hregion
    | inside origin?' =>
      simp only [Region.after, hkind]
      -- a region that is open is left at the same nodes, whatever its origin
      split <;> simp

/-- **The analysis finds as many errors in trees that are alike.** -/
theorem countP_regionNotices_alike {region region' : Region}
    (h : List.Forall₂ (Alike related) nodes others)
    (hregion : region' = .outside ↔ region = .outside) :
    (regionNotices region' others).countP Notice.isError =
      (regionNotices region nodes).countP Notice.isError := by
  induction h generalizing region region' with
  | nil =>
    have hnone : ∀ region : Region, (regionNotices region []).countP Notice.isError = 0 := by
      intro region
      cases region <;> rfl
    rw [hnone, hnone]
  | @cons node other _ _ hnode _ ih =>
    have hformat : other.formatError?.toList.length = node.formatError?.toList.length := by
      have hsome := hnode.isSome_formatError?
      cases hother : other.formatError? <;> cases hnode' : node.formatError? <;> simp_all
    -- an error for the place of the statement, one for its operands, and those of the rest
    rw [regionNotices, regionNotices, List.countP_append, List.countP_append,
      countP_statementNotices, countP_statementNotices, hnode.kind_eq, error?_congr hregion,
      hformat, ih (after_eq_outside_congr hregion hnode.kind_eq)]

theorem Alike.errors_analyze (h : node.Alike related other) :
    other.analyze.errors = node.analyze.errors :=
  countP_regionNotices_alike h.children Iff.rfl

/-- The trees that the analysis makes of trees that are alike are so, too. -/
theorem Alike.analyze (h : node.Alike related other)
    (hroot : related node other → related node.analyze.product other.analyze.product)
    (hrelated : ∀ a b, related a b → related a.recordFormat b.recordFormat) :
    node.analyze.product.Alike related other.analyze.product := by
  refine alike_iff.mpr ⟨h.kind_eq, hroot h.top, ?_⟩
  show List.Forall₂ (Alike related) (node.children.map Node.recordFormat)
    (other.children.map Node.recordFormat)
  rw [List.forall₂_map_left_iff, List.forall₂_map_right_iff]
  exact h.children.imp fun a b hab => hab.recordFormat (hrelated a b)

/-- Behind an analysis without errors every statement has the format recorded that its operands
    have. -/
theorem recordsOwnFormat_of_errors_eq_zero {tree : Node} (h : tree.analyze.errors = 0) :
    ∀ node ∈ tree.analyze.product.children, node.RecordsOwnFormat := by
  intro node hnode
  obtain ⟨before, hbefore, rfl⟩ := List.mem_map.mp hnode
  have hformat := formatError?_eq_none h hbefore
  intro mnemonic recorded flags? hkind
  cases hbefore' : before.kind with
  | instruction mnemonic' recorded? flags?' =>
    cases hmatched : matchedFormat? mnemonic' before.children with
    -- an instruction that matches no format would be an error
    | none => simp [formatError?, hbefore', hmatched] at hformat
    | some format =>
      simp only [Node.recordFormat, hbefore', hmatched] at hkind
      obtain ⟨rfl, hsome, -⟩ := Kind.instruction.inj hkind
      obtain rfl := Option.some.inj hsome
      exact List.mem_of_find?_eq_some hmatched
  | _ => simp [Node.recordFormat, hbefore'] at hkind

end Node

end LC3
