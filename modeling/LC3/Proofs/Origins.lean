import LC3.Proofs.Blocks
import LC3.Proofs.Packing

namespace LC3

/-!
# Other load addresses

The same program with other operands behind its `.ORIG`. The stages in front of symbol resolution
look at the classes of operands and not at the numbers themselves, so they find the same.

* `Node.moveOrigins` — a program with other load addresses.
* `Node.analyze_moveOrigins` — its analysis.
* `Node.nameNotices_moveOrigins_eq_nil` — nothing becomes wrong about the names of its labels.
-/

namespace Node

/-- The same operand, with another number if it is one. -/
def moveNumber (move : Word → Word) (operand : Node) : Node :=
  match operand.kind with
  | .number value => { operand with kind := .number (move value) }
  | _ => operand

/-- The same statement, with another load address if it sets one. -/
def moveOrigin (move : Word → Word) (node : Node) : Node :=
  if node.isOrigin then { node with children := node.children.map (moveNumber move) } else node

/-- The same program with other load addresses. -/
def moveOrigins (move : Word → Word) (root : Node) : Node :=
  { root with children := root.children.map (moveOrigin move) }

variable {move : Word → Word} {node : Node}

/-- A statement that sets the load address gets another number. -/
theorem moveOrigin_of_isOrigin (h : node.isOrigin) :
    node.moveOrigin move = { node with children := node.children.map (moveNumber move) } :=
  if_pos h

/-- Any other statement stays as it is. -/
theorem moveOrigin_of_not_isOrigin (h : ¬ node.isOrigin) : node.moveOrigin move = node :=
  if_neg h

@[simp] theorem kind_moveOrigin (move : Word → Word) (node : Node) :
    (node.moveOrigin move).kind = node.kind := by
  unfold moveOrigin
  split <;> rfl

@[simp] theorem token?_moveOrigin (move : Word → Word) (node : Node) :
    (node.moveOrigin move).token? = node.token? := by
  unfold moveOrigin
  split <;> rfl

/-- The load address that a statement sets is moved. -/
theorem origin?_moveOrigin {value : Word} (horigin : node.isOrigin)
    (h : node.origin? = some value) : (node.moveOrigin move).origin? = some (move value) := by
  rw [moveOrigin_of_isOrigin horigin]
  unfold origin? at h ⊢
  rw [List.head?_map]
  cases hfirst : node.children.head? with
  | none => simp [hfirst] at h
  | some operand =>
    rw [hfirst] at h
    split at h
    case h_2 => cases h
    case h_1 value' hkind =>
      obtain rfl := Option.some.inj h
      have hkind : operand.kind = .number value' := Option.some.inj hkind
      simp [moveNumber, hkind]

/-! ### Analysis -/

/-- Operands have the same classes whatever their numbers are. -/
theorem accepts_moveNumber (operand : Operand) (node : Node) :
    operand.accepts (node.moveNumber move).kind = operand.accepts node.kind := by
  unfold moveNumber
  split
  case h_1 value hkind =>
    rw [hkind]
    cases operand <;> rfl
  case h_2 => rfl

/-- Operands fit the same formats with other numbers. -/
theorem fits_map_moveNumber (format : Format) (nodes : List Node) :
    format.fits (nodes.map (moveNumber move)) = format.fits nodes := by
  rw [Bool.eq_iff_iff, Format.fits_iff_forall₂, Format.fits_iff_forall₂,
    List.forall₂_map_right_iff]
  simp only [accepts_moveNumber]

@[simp] theorem formatError?_moveOrigin (move : Word → Word) (node : Node) :
    (node.moveOrigin move).formatError? = node.formatError? := by
  by_cases horigin : node.isOrigin
  · rw [moveOrigin_of_isOrigin horigin]
    simp only [formatError?, isOrigin_iff.mp horigin, fits_map_moveNumber]
  · rw [moveOrigin_of_not_isOrigin horigin]

/-- What a statement is blamed for does not depend on load addresses. -/
theorem statementNotices_moveOrigin (region : Region) (node : Node) :
    statementNotices region (node.moveOrigin move) = statementNotices region node := by
  simp only [statementNotices, kind_moveOrigin, formatError?_moveOrigin, location?,
    token?_moveOrigin]

/-- Regions do not depend on load addresses. -/
theorem after_moveOrigin (region : Region) (node : Node) :
    region.after (node.moveOrigin move) = region.after node := by
  cases region <;> simp only [Region.after, kind_moveOrigin, location?, token?_moveOrigin]

/-- **The analysis finds the same** for other load addresses. -/
theorem regionNotices_moveOrigin (region : Region) (nodes : List Node) :
    regionNotices region (nodes.map (moveOrigin move)) = regionNotices region nodes := by
  induction nodes generalizing region with
  | nil => rfl
  | cons node nodes ih =>
    rw [List.map_cons, regionNotices, regionNotices, statementNotices_moveOrigin,
      after_moveOrigin, ih]

/-- A statement that sets a load address has no format to record. -/
theorem recordFormat_of_isOrigin (h : node.isOrigin) : node.recordFormat = node := by
  simp only [recordFormat, isOrigin_iff.mp h]

@[simp] theorem isOrigin_recordFormat (node : Node) :
    node.recordFormat.isOrigin = node.isOrigin := by
  rcases recordFormat_cases node with hsame | ⟨_, _, _, _, hkind, hrecorded⟩
  · rw [hsame]
  · simp [hrecorded, hkind, isOrigin]

@[simp] theorem isOrigin_moveOrigin (move : Word → Word) (node : Node) :
    (node.moveOrigin move).isOrigin = node.isOrigin := by
  rw [isOrigin, isOrigin, kind_moveOrigin]

/-- The format that is recorded does not depend on the number. -/
theorem recordFormat_moveOrigin (node : Node) :
    (node.moveOrigin move).recordFormat = node.recordFormat.moveOrigin move := by
  by_cases horigin : node.isOrigin
  · rw [recordFormat_of_isOrigin horigin, recordFormat_of_isOrigin]
    rwa [isOrigin_moveOrigin]
  · have hrecorded : ¬ node.recordFormat.isOrigin := by rwa [isOrigin_recordFormat]
    rw [moveOrigin_of_not_isOrigin horigin, moveOrigin_of_not_isOrigin hrecorded]

/-- What the analysis makes of a program, with other load addresses. -/
theorem analyze_moveOrigins {tree root : Node} (h : tree.analyze.outcome = .ok root) :
    (tree.moveOrigins move).analyze.outcome = .ok (root.moveOrigins move) := by
  obtain ⟨hnone, rfl⟩ := StageResult.outcome_eq_ok_iff.mp h
  refine StageResult.outcome_eq_ok_iff.mpr ⟨?_, ?_⟩
  · show (regionNotices .outside (tree.children.map (moveOrigin move))).countP Notice.isError = 0
    rw [regionNotices_moveOrigin]
    exact hnone
  · have hchildren : (tree.children.map (moveOrigin move)).map recordFormat =
        (tree.children.map recordFormat).map (moveOrigin move) := by
      simp only [List.map_map, Function.comp_def, recordFormat_moveOrigin]
    exact congrArg (Node.mk tree.kind tree.token?) hchildren

/-! ### Names -/

section Names

variable {kind : Kind} (hkind : kind = .labelDefinition ∨ kind = .labelReference)

include hkind

/-- Numbers are no labels, and what is below them stays. -/
private theorem names_singleton_moveNumber (node : Node) :
    names kind [node.moveNumber move] = names kind [node] := by
  unfold moveNumber
  split
  case h_1 value hnumber =>
    rw [names_singleton, names_singleton]
    · rw [hnumber]
      rcases hkind with rfl | rfl <;> simp
    · rcases hkind with rfl | rfl <;> simp
  case h_2 => rfl

/-- Other load addresses leave the names of labels alone. -/
theorem names_map_moveOrigin (nodes : List Node) :
    names kind (nodes.map (moveOrigin move)) = names kind nodes := by
  refine names_map (fun node => ?_) nodes
  by_cases horigin : node.isOrigin
  · have hother : node.kind ≠ kind := by
      rw [isOrigin_iff.mp horigin]
      rcases hkind with rfl | rfl <;> simp
    rw [names_singleton hother, names_singleton (by rwa [kind_moveOrigin]),
      moveOrigin_of_isOrigin horigin]
    exact names_map (names_singleton_moveNumber hkind) node.children
  · rw [moveOrigin_of_not_isOrigin horigin]

/-- Other load addresses leave the names in a program alone. -/
theorem names_moveOrigins (root : Node) :
    names kind [root.moveOrigins move] = names kind [root] := by
  have hbelow : names kind (root.moveOrigins move).children = names kind root.children :=
    names_map_moveOrigin hkind root.children
  by_cases hroot : root.kind = kind
  · -- the root has a name of its own
    have hname : ∀ other : Node, other.kind = kind →
        names kind [other] = other.text :: names kind other.children := by
      intro other hother
      rw [names, walkAll_singleton, List.filter_cons_of_pos (by simpa using hother)]
      rfl
    rw [hname root hroot, hname (root.moveOrigins move) hroot, hbelow]
    rfl
  · have hroot' : (root.moveOrigins move).kind ≠ kind := hroot
    rw [names_singleton hroot, names_singleton hroot', hbelow]

end Names

/-- **Names are in order** under other load addresses if they have been. -/
theorem nameNotices_moveOrigins_eq_nil {root : Node} (h : root.nameNotices = []) :
    (root.moveOrigins move).nameNotices = [] := by
  have hdefined : ∀ root : Node,
      root.definitions.map text = names .labelDefinition [root] := by
    intro root
    rw [names, walkAll_singleton, ← walk_eq]
    rfl
  have hused : ∀ root : Node, root.references.map text = names .labelReference [root] := by
    intro root
    rw [names, walkAll_singleton, ← walk_eq]
    rfl
  rw [nameNotices_eq_nil_iff, ← List.forall_mem_map, hdefined, hused] at h ⊢
  rwa [names_moveOrigins (.inl rfl), names_moveOrigins (.inr rfl)]

end Node

end LC3
