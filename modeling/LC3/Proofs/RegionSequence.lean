import LC3.Proofs.Packing
import LC3.Proofs.RegionLabels
import Mathlib.Data.List.Chain
import Mathlib.Data.List.DropRight
import Mathlib.Data.List.Forall2

namespace LC3

/-!
# Sequences of regions

The analysis walks through a program with the region it stands in. What it accepts and what it
reports can be said without the walk, by looking back from each statement for the `.ORIG` that is
still open there.

* `Node.opener?` — the `.ORIG` that has opened the region behind some statements.
* `Node.misplacement?`, `Node.mismatch?` — what is wrong with the place of a statement, and with its
  operands.
* `Node.WellFormed` — programs whose regions are not nested and hold every statement that places
  words, and whose statements have operands of their formats.
* `Node.analyze_regions` — the analysis accepts exactly these, and reports of the others what is
  wrong with each statement.
-/

namespace Node

/-! ### The open region -/

/-- The `.ORIG` that has opened the region behind some statements: the first one behind the last
    `.END`. The ones that follow it are nested and do not count. -/
def opener? (before : List Node) : Option Node :=
  (before.rtakeWhile fun node => node.kind ≠ .directive .endRegion).find? isOrigin

/-- What a statement does to the open region: an `.END` closes it, and an `.ORIG` opens one if none
    is open. -/
theorem opener?_concat (before : List Node) (node : Node) :
    opener? (before ++ [node]) =
      if node.kind = .directive .endRegion then none
      else (opener? before).or (if node.isOrigin then some node else none) := by
  unfold opener?
  rw [List.rtakeWhile_concat]
  by_cases hend : node.kind = .directive .endRegion
  · simp [hend]
  · simp [hend, List.find?_append, List.find?_singleton]

/-- A region is open exactly behind an `.ORIG` that no `.END` follows. -/
theorem isSome_opener?_iff {before : List Node} :
    (opener? before).isSome ↔
      ∃ front origin between, before = front ++ origin :: between ∧ origin.isOrigin ∧
        ∀ other ∈ between, other.kind ≠ .directive .endRegion := by
  induction before using List.reverseRecOn with
  | nil => simp [opener?]
  | append_singleton before node ih =>
    rw [opener?_concat]
    constructor
    · intro hopen
      -- open behind one more statement: it was open and stays so, or this one opens it
      split at hopen
      case isTrue => cases hopen
      case isFalse hend =>
        rw [Option.isSome_or, Bool.or_eq_true] at hopen
        rcases hopen with hopen | hopen
        · obtain ⟨front, origin, between, rfl, horigin, hbetween⟩ := ih.mp hopen
          refine ⟨front, origin, between ++ [node], by simp, horigin, ?_⟩
          rw [List.forall_mem_append, List.forall_mem_singleton]
          exact ⟨hbetween, hend⟩
        · have horigin : node.isOrigin := by
            by_contra hnot
            simp [hnot] at hopen
          exact ⟨before, node, [], by simp, horigin, by simp⟩
    · -- the last `.ORIG` is this statement, or it stands in front of it
      rintro ⟨front, origin, between, hsplit, horigin, hbetween⟩
      rcases between.eq_nil_or_concat' with rfl | ⟨between, last, rfl⟩
      · obtain ⟨rfl, rfl⟩ := List.append_singleton_inj.mp hsplit
        have hkind := isOrigin_iff.mp horigin
        simp [hkind, horigin]
      · rw [← List.cons_append, ← List.append_assoc] at hsplit
        obtain ⟨rfl, rfl⟩ := List.append_singleton_inj.mp hsplit
        have hopen : (opener? (front ++ origin :: between)).isSome :=
          ih.mpr ⟨front, origin, between, rfl, horigin,
            fun other hother => hbetween other (List.mem_append_left _ hother)⟩
        rw [if_neg (hbetween node (by simp)), Option.isSome_or, hopen, Bool.true_or]

/-- The region behind some statements. -/
def regionBehind (before : List Node) : Region :=
  (opener? before).elim .outside fun origin => .inside origin.location?

/-- One statement moves the walk from the region behind those in front of it to the region behind
    itself. -/
theorem after_regionBehind (before : List Node) (node : Node) :
    (regionBehind before).after node = regionBehind (before ++ [node]) := by
  unfold regionBehind
  rw [opener?_concat]
  cases opener? before with
  | none =>
    by_cases horigin : node.isOrigin
    · have hkind := isOrigin_iff.mp horigin
      simp [Region.after, hkind, horigin]
    · rw [Option.elim_none, Region.after_outside horigin]
      simp [horigin]
  | some origin =>
    by_cases hend : node.kind = .directive .endRegion <;> simp [Region.after, hend]

/-- The walk stands behind some statements in the region that is open there. -/
theorem foldl_after_eq_regionBehind (nodes : List Node) :
    nodes.foldl Region.after .outside = regionBehind nodes := by
  induction nodes using List.reverseRecOn with
  | nil => rfl
  | append_singleton nodes node ih =>
    rw [List.foldl_append, ih, List.foldl_cons, after_regionBehind, List.foldl_nil]

/-! ### What is wrong with a statement -/

/-- What is wrong with the place of a statement behind some others: the region it needs or closes is
    not open, or the one that it opens is nested. -/
def misplacement? (before : List Node) (node : Node) : Option AssemblyError :=
  match opener? before, node.kind with
  | some _, .directive .orig => some .nestedOrigin
  | none, .directive .endRegion => some .unopenedEnd
  | none, .directive directive =>
    if directive.isMemory then some (.memoryOutsideRegion directive) else none
  | none, .instruction _ _ _ => some .instructionOutsideRegion
  | _, _ => none

/-- The name of a statement and its formats. An instruction is named as it is written. -/
def statement? (node : Node) : Option (String × List Format) :=
  match node.kind with
  | .instruction mnemonic _ _ =>
    some ((node.token?.map Token.text).getD mnemonic.name, mnemonic.formats)
  | .directive directive => some (toString directive, directive.formats)
  | _ => none

/-- The children of a statement are the operands of a format: as many, each of its class. -/
def Matches (node : Node) (format : Format) : Prop :=
  List.Forall₂ (fun operand child => operand.accepts child.kind) format.operands node.children

instance (node : Node) (format : Format) : Decidable (node.Matches format) :=
  inferInstanceAs (Decidable (List.Forall₂ _ _ _))

/-- What is wrong with the operands of a statement: they match none of its formats. -/
def mismatch? (node : Node) : Option AssemblyError :=
  node.statement?.bind fun (name, formats) =>
    if ∃ format ∈ formats, node.Matches format then none else some (.ofFormats name formats)

/-- The region tells which statements are out of place. -/
theorem error?_regionBehind (before : List Node) (node : Node) :
    (regionBehind before).error? node.kind = misplacement? before node := by
  unfold regionBehind misplacement?
  cases opener? before with
  | none =>
    cases node.kind with
    | directive directive => cases directive <;> rfl
    | _ => rfl
  | some origin =>
    cases node.kind with
    | directive directive => cases directive <;> rfl
    | _ => rfl

/-- Operands that match no format are what is wrong with a format. -/
theorem formatError?_eq_mismatch? (node : Node) : node.formatError? = node.mismatch? := by
  unfold formatError? mismatch? statement? Matches
  cases node.kind with
  | directive directive => simp [Format.fits_iff_forall₂]
  | instruction mnemonic format? flags? =>
    simp [matchedFormat?, Format.fits_iff_forall₂]
  | _ => rfl

/-- All that is reported of a statement behind some others, its place before its operands. -/
def reports (before : List Node) (node : Node) : List Notice :=
  ((misplacement? before node).toList ++ node.mismatch?.toList).map node.notice

/-- What is reported of a statement is what is wrong with its place and with its operands. -/
theorem statementNotices_regionBehind (before : List Node) (node : Node) :
    statementNotices (regionBehind before) node = reports before node := by
  rw [statementNotices, error?_regionBehind, formatError?_eq_mismatch?]
  rfl

/-- The walk reports what is wrong with each statement, in order, and then the region that is still
    open. -/
theorem regionNotices_regionBehind (before nodes : List Node) :
    regionNotices (regionBehind before) nodes =
      (nodes.mapIdx fun i node => reports (before ++ nodes.take i) node).flatten ++
        (regionBehind (before ++ nodes)).warning?.toList := by
  induction nodes generalizing before with
  | nil => simp [regionNotices]
  | cons node nodes ih =>
    rw [regionNotices, statementNotices_regionBehind, after_regionBehind, ih, List.mapIdx_cons]
    simp

/-! ### Well-formed programs -/

/-- The directive of a statement that opens or closes a region. -/
def marker? (node : Node) : Option Directive :=
  match node.kind with
  | .directive .orig => some .orig
  | .directive .endRegion => some .endRegion
  | _ => none

/-- The statements of a program whose regions are well formed. -/
structure WellFormed (statements : List Node) : Prop where
  /-- `.ORIG` and `.END` alternate, and an `.ORIG` comes first, as it would behind an `.END`. -/
  alternating : (.endRegion :: statements.filterMap marker?).IsChain (· ≠ ·)
  /-- What places words comes behind an `.ORIG` that has not been closed. -/
  enclosed : ∀ before node after, statements = before ++ node :: after → node.isPlaced →
    ∃ front origin between, before = front ++ origin :: between ∧ origin.isOrigin ∧
      ∀ other ∈ between, other.kind ≠ .directive .endRegion
  /-- The operands of each instruction and directive match one of its formats. -/
  matching : ∀ node ∈ statements, ∀ name formats, node.statement? = some (name, formats) →
    ∃ format ∈ formats, node.Matches format

/-- The last statement that opens or closes a region tells whether one is open. -/
theorem getLast?_markers (before : List Node) :
    (.endRegion :: before.filterMap marker?).getLast? =
      some (if (opener? before).isSome then .orig else .endRegion) := by
  induction before using List.reverseRecOn with
  | nil => rfl
  | append_singleton before node ih =>
    rw [List.filterMap_append, ← List.cons_append, List.getLast?_append, ih, opener?_concat]
    -- this statement closes a region, opens one, or does neither
    by_cases hend : node.kind = .directive .endRegion
    · simp [marker?, hend]
    by_cases horigin : node.kind = .directive .orig
    · simp [marker?, horigin, isOrigin]
    · have hmarker : node.marker? = none := by
        unfold marker?
        split
        case h_1 hkind => exact absurd hkind horigin
        case h_2 hkind => exact absurd hkind hend
        case h_3 => rfl
      simp [hmarker, hend, isOrigin, horigin]

/-- A statement has its place exactly if it does not open or close a region like the last one that
    did, and is inside a region if it places words. -/
theorem misplacement?_eq_none_iff {before : List Node} {node : Node} :
    misplacement? before node = none ↔
      (∀ last ∈ (Directive.endRegion :: before.filterMap marker?).getLast?,
        ∀ marker ∈ node.marker?, last ≠ marker) ∧
      (node.isPlaced → (opener? before).isSome) := by
  rw [getLast?_markers]
  unfold misplacement? marker? isPlaced
  cases opener? before with
  | none =>
    -- outside, memory must not be filled, nor a region be closed
    cases node.kind with
    | directive directive => cases directive <;> simp [Directive.isMemory]
    | _ => simp
  | some origin =>
    -- inside, no other region may be opened
    cases node.kind with
    | directive directive => cases directive <;> simp
    | _ => simp

/-- The operands of a statement are right exactly if they match one of its formats. -/
theorem mismatch?_eq_none_iff {node : Node} :
    node.mismatch? = none ↔
      ∀ name formats, node.statement? = some (name, formats) →
        ∃ format ∈ formats, node.Matches format := by
  unfold mismatch?
  cases node.statement? with
  | none => simp
  | some statement =>
    obtain ⟨name, formats⟩ := statement
    simp

/-- What holds of each statement and those in front of it holds of the last one, and of each of the
    others. -/
private theorem forall_split_concat {statements : List Node} {last : Node}
    {motive : List Node → Node → Prop} :
    (∀ before node after, statements ++ [last] = before ++ node :: after → motive before node) ↔
      (∀ before node after, statements = before ++ node :: after → motive before node) ∧
        motive statements last := by
  constructor
  · -- both parts split at an earlier place
    intro h
    refine ⟨?_, h statements last [] rfl⟩
    rintro before node after rfl
    exact h before node (after ++ [last]) (by simp)
  · rintro ⟨h, hlast⟩ before node after hsplit
    rcases after.eq_nil_or_concat' with rfl | ⟨after, other, rfl⟩
    · obtain ⟨rfl, rfl⟩ := List.append_singleton_inj.mp hsplit
      exact hlast
    · rw [← List.cons_append, ← List.append_assoc] at hsplit
      obtain ⟨rfl, rfl⟩ := List.append_singleton_inj.mp hsplit
      exact h before node after rfl

/-- A program with one more statement is well formed exactly if it was before and nothing is wrong
    with the statement. -/
theorem wellFormed_concat_iff {statements : List Node} {node : Node} :
    WellFormed (statements ++ [node]) ↔
      WellFormed statements ∧ misplacement? statements node = none ∧ node.mismatch? = none := by
  -- the markers alternate to the end, with this statement behind the last
  have halternating : (Directive.endRegion :: (statements ++ [node]).filterMap marker?).IsChain
        (· ≠ ·) ↔
      (Directive.endRegion :: statements.filterMap marker?).IsChain (· ≠ ·) ∧
        ∀ last ∈ (Directive.endRegion :: statements.filterMap marker?).getLast?,
          ∀ marker ∈ node.marker?, last ≠ marker := by
    rw [List.filterMap_append, ← List.cons_append, List.isChain_append]
    cases hmarker : node.marker? <;> simp [hmarker]
  rw [misplacement?_eq_none_iff, mismatch?_eq_none_iff, isSome_opener?_iff]
  constructor
  · -- each of the three conditions is one on the statements and one on this one
    rintro ⟨halt, henclosed, hmatching⟩
    obtain ⟨halt, hlast⟩ := halternating.mp halt
    obtain ⟨henclosed, hnode⟩ := forall_split_concat.mp henclosed
    rw [List.forall_mem_append, List.forall_mem_singleton] at hmatching
    exact ⟨⟨halt, henclosed, hmatching.1⟩, ⟨hlast, hnode⟩, hmatching.2⟩
  · rintro ⟨⟨halt, henclosed, hmatching⟩, ⟨hlast, hnode⟩, hmatch⟩
    refine ⟨halternating.mpr ⟨halt, hlast⟩, forall_split_concat.mpr ⟨henclosed, hnode⟩, ?_⟩
    rw [List.forall_mem_append, List.forall_mem_singleton]
    exact ⟨hmatching, hmatch⟩

/-- The walk finds no error exactly in well-formed programs. -/
theorem countP_regionNotices_eq_zero_iff {statements : List Node} :
    (regionNotices .outside statements).countP Notice.isError = 0 ↔ WellFormed statements := by
  induction statements using List.reverseRecOn with
  | nil =>
    refine ⟨fun _ => ⟨List.isChain_singleton _, by simp, by simp⟩, fun _ => rfl⟩
  | append_singleton statements node ih =>
    -- the walk is in the region behind the statements
    have hregion : statements.foldl Region.after .outside = regionBehind statements :=
      foldl_after_eq_regionBehind statements
    have hend : ∀ region : Region, (regionNotices region []).countP Notice.isError = 0 := by
      intro region
      cases region <;> rfl
    rw [countP_regionNotices_append, Nat.add_eq_zero_iff, countP_regionNotices_cons_iff, hregion,
      error?_regionBehind, formatError?_eq_mismatch?, ih, wellFormed_concat_iff]
    simp [hend]

/-- **The analysis accepts exactly the programs with well-formed regions.** It succeeds if and only
    if `.ORIG` and `.END` alternate, statements that place words are behind an `.ORIG` that is not
    closed, and operands match a format. What it reports is, for each statement in order, the error
    of its place and then that of its operands, and in the end a warning at the `.ORIG` whose region
    is open. -/
theorem analyze_regions (tree : Node) :
    ((∃ root, tree.analyze.outcome = .ok root) ↔ WellFormed tree.children) ∧
      tree.analyze.notices =
        (tree.children.mapIdx fun i node => reports (tree.children.take i) node).flatten ++
          (opener? tree.children).toList.map fun origin =>
            ⟨.warning, .assembly .unclosedOrigin, origin.location?⟩ := by
  constructor
  · -- no errors are counted exactly in a well-formed program
    rw [← countP_regionNotices_eq_zero_iff]
    constructor
    · rintro ⟨root, hroot⟩
      exact (StageResult.outcome_eq_ok_iff.mp hroot).1
    · intro hnone
      exact ⟨_, StageResult.outcome_eq_ok_iff.mpr ⟨hnone, rfl⟩⟩
  · have hwarning : (regionBehind tree.children).warning?.toList =
        (opener? tree.children).toList.map fun origin =>
          ⟨.warning, .assembly .unclosedOrigin, origin.location?⟩ := by
      unfold regionBehind
      cases opener? tree.children <;> rfl
    rw [← hwarning]
    exact regionNotices_regionBehind [] tree.children

end Node

end LC3
