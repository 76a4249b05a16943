import LC3.Proofs.Runs
import LC3.Proofs.Settled

namespace LC3

/-!
# Runs that start with a tree

The stages behind reading work on trees, whether these come from a source or not. They come to the
same for trees that are alike but for the names of their labels, if these are kept apart: to the
same words, or to an end at the same stage with as many errors.

* `Node.Assembles` — what these stages make of a tree that goes through them without an error.
* `Node.encode_settled` — encoding, for statements that settle to the same.
* `Assembly.Goes.cases_of_errors_eq`, `Assembly.Goes.outcome_eq` — two stages that find as many
  errors come to the same if what follows does.
* `Assembly.RunAnalysis.outcome_eq` — the stages behind reading.
-/

namespace Node

/-- What the stages behind reading make of a tree that goes through them without an error: the same
    tree with the formats of its instructions, the symbol table, and the image. -/
structure Assembles (tree root : Node) (symbols : SymbolTable) (image : Image) : Prop where
  analyzed : tree.analyze.outcome = .ok root
  resolved : (SymbolTable.build root).outcome = .ok symbols
  encoded : ∃ result, root.encode symbols = .ok result ∧ result.outcome = .ok image

/-- The run of a tree that goes through all stages. -/
theorem Assembles.exists_run {tree root : Node} {symbols : SymbolTable} {image : Image}
    (h : tree.Assembles root symbols image) :
    ∃ findings, Assembly.RunAnalysis tree findings (.ok image) := by
  obtain ⟨encoded, hencode, hout⟩ := h.encoded
  exact ⟨_, .on h.analyzed (.on h.resolved ⟨encoded, hencode, .on hout ⟨rfl, rfl⟩⟩)⟩

variable {symbols symbols' : SymbolTable} {node other root root' : Node} {nodes others : List Node}

/-- Two statements of the same kind whose operands settle to the same. -/
def SettlesTo (symbols symbols' : SymbolTable) (node other : Node) : Prop :=
  other.kind = node.kind ∧ List.Forall₂ (SettlesAlike symbols symbols') node.children other.children

/-- What is shown of an entry, and whether its statement has a fault, come from the words of the
    statement. -/
private theorem entry_eq (hown : node.RecordsOwnFormat) (counter : Counter) (words : List Word) :
    (node.wordsAt counter symbols,
        ((⟨node, counter, words⟩ : Listing.Entry).fault? symbols).isSome) =
      (((node.emit counter symbols).toOption).getD [],
        ((node.emit counter symbols).toOption).isNone) := by
  cases hemit : node.emit counter symbols with
  | ok words => simp [wordsAt, Listing.Entry.fault?, hemit, Except.toOption]
  | error error =>
    obtain ⟨fault, rfl, -⟩ := isFaultAt_of_emit hown hemit
    simp [wordsAt, Listing.Entry.fault?, hemit, Except.toOption]

theorem SettlesTo.recordsOwnFormat (h : node.SettlesTo symbols symbols' other)
    (hown : node.RecordsOwnFormat) : other.RecordsOwnFormat := by
  intro mnemonic recorded flags? hkind
  exact hown mnemonic recorded flags? (h.1.symm.trans hkind)

/-- Listings of statements that settle to the same show the same words and have as many faults. -/
private theorem map_listing_settled (h : List.Forall₂ (SettlesTo symbols symbols') nodes others)
    (hown : ∀ node ∈ nodes, node.RecordsOwnFormat) (counter : Counter) :
    (listing symbols' counter others).map (fun entry =>
        (entry.words, (entry.fault? symbols').isSome)) =
      (listing symbols counter nodes).map fun entry =>
        (entry.words, (entry.fault? symbols).isSome) := by
  induction h generalizing counter with
  | nil => rfl
  | @cons node other _ _ hnode _ ih =>
    obtain ⟨hown, hown'⟩ := List.forall_mem_cons.mp hown
    -- both counters go on alike, so the listings stay in step
    have hcounter : counter.step other = counter.step node :=
      Counter.step_congr hnode.1 (map_kind_of_settlesAlike hnode.2) counter
    simp only [listing, List.map_cons, hcounter, ih hown']
    rw [entry_eq hown, entry_eq (hnode.recordsOwnFormat hown),
      toOption_emit_settled hnode.1 hnode.2]

theorem recordsOwnFormat_of_settlesTo (h : List.Forall₂ (SettlesTo symbols symbols') nodes others)
    (hown : ∀ node ∈ nodes, node.RecordsOwnFormat) : ∀ other ∈ others, other.RecordsOwnFormat := by
  intro other hother
  obtain ⟨node, hnode, hsettles⟩ := exists_mem_of_forall₂ h hother
  exact hsettles.recordsOwnFormat (hown node hnode)

/-- **Programs that settle to the same are encoded to the same words**, with as many errors. -/
theorem encode_settled {result result' : StageResult Image}
    (h : List.Forall₂ (SettlesTo symbols symbols') root.children root'.children)
    (hown : ∀ node ∈ root.children, node.RecordsOwnFormat)
    (hencode : root.encode symbols = .ok result) (hencode' : root'.encode symbols' = .ok result') :
    result'.errors = result.errors ∧ result'.product = result.product := by
  have hown' := recordsOwnFormat_of_settlesTo h hown
  have hlisting := map_listing_settled h hown .start
  constructor
  · -- there are as many errors as entries with a fault
    have hcount := congrArg (List.countP Prod.snd) hlisting
    rw [List.countP_map, List.countP_map] at hcount
    rw [errors_encode hown hencode, errors_encode hown' hencode']
    exact hcount
  · obtain ⟨log, hlisted⟩ := encode_eq_listing hown symbols
    obtain ⟨log', hlisted'⟩ := encode_eq_listing hown' symbols'
    obtain rfl := Except.ok.inj (hencode.symm.trans hlisted)
    obtain rfl := Except.ok.inj (hencode'.symm.trans hlisted')
    have hflat := congrArg (List.flatMap Prod.fst) hlisting
    rw [List.flatMap_map, List.flatMap_map] at hflat
    exact congrArg Image.mk hflat

/-- Under other names statements settle to the same: what a label is used for is its address, which
    does not depend on its name. -/
theorem settlesTo_of_build {rename : String → String} (h : root.Alike (Renames rename) root')
    (hinj : Set.InjOn rename {name | name ∈ root.labelNames})
    (hsymbols : (SymbolTable.build root).outcome = .ok symbols)
    (hsymbols' : (SymbolTable.build root').outcome = .ok symbols') :
    List.Forall₂ (SettlesTo symbols symbols') root.children root'.children := by
  have hsettles : root.Alike (fun a b => a.kind = .labelReference →
      symbols'.lookup b.text = symbols.lookup a.text) root' := by
    refine h.imp fun a ha b hkind hrenames hreference => ?_
    have hlabel : a.isLabel := by simp [isLabel, hreference]
    rw [hrenames hlabel]
    exact SymbolTable.lookup_build_renamed h hinj hsymbols hsymbols' (mem_labelNames ha hlabel)
  exact hsettles.children.imp fun node other hnode =>
    ⟨hnode.kind_eq, hnode.children.imp fun _ _ hoperand => ⟨hoperand.kind_eq, hoperand.top⟩⟩

/-! ### Names in a tree with recorded formats -/

/-- Recording formats adds no names. -/
theorem labelNames_analyze_subset (tree : Node) :
    tree.analyze.product.labelNames ⊆ tree.labelNames := by
  intro name hname
  obtain ⟨node, hnode, rfl⟩ := List.mem_map.mp hname
  obtain ⟨hwalk, hlabel⟩ := List.mem_filter.mp hnode
  rw [walk_eq] at hwalk
  rcases List.mem_cons.mp hwalk with rfl | hbelow
  · -- the analysis leaves the top of the tree as it is, but for what is below
    have htop : tree ∈ tree.walk := by
      rw [walk_eq]
      exact List.mem_cons_self
    show tree.text ∈ tree.labelNames
    exact mem_labelNames htop hlabel
  · have hin : ∀ before ∈ walkAll tree.children, before ∈ tree.walk := by
      intro before hbefore
      rw [walk_eq]
      exact List.mem_cons_of_mem _ hbefore
    obtain ⟨before, hbefore, rfl | rfl⟩ := exists_mem_walkAll_recordFormat hbelow
    · exact mem_labelNames (hin _ hbefore) hlabel
    · -- a label is no instruction, so nothing is recorded for it
      have hsame : before.recordFormat = before := by
        rcases recordFormat_cases before with hsame | ⟨_, _, _, _, _, hrecorded⟩
        · exact hsame
        · rw [hrecorded] at hlabel
          cases hlabel
      rw [hsame] at hlabel ⊢
      exact mem_labelNames (hin before hbefore) hlabel

end Node

namespace Assembly

open Node

/-- The tree of a source that assembles goes through the stages behind reading. -/
theorem Stages.assembles {source : String} {tree root : Node} {symbols : SymbolTable}
    {image : Image} (h : Stages source tree root symbols image) :
    tree.Assembles root symbols image :=
  ⟨h.analyzed, h.resolved, h.encoded⟩

section Goes

variable {α : Type} {stage : Stage} {result result' : StageResult α} {next next' : α → Account}
  {findings findings' : List Finding} {outcome outcome' : Except AssemblyFailure Image}

/-- Two stages that find as many errors both fail, with as many, or are both followed by the next
    one. -/
theorem Goes.cases_of_errors_eq (herrors : result'.errors = result.errors)
    (h : Goes stage result next findings outcome)
    (h' : Goes stage result' next' findings' outcome') :
    (findings = [⟨stage, result.notices⟩] ∧ findings' = [⟨stage, result'.notices⟩] ∧
      outcome' = outcome) ∨
    ∃ product product' rest rest', result.outcome = .ok product ∧ result'.outcome = .ok product' ∧
      findings = ⟨stage, result.notices⟩ :: rest ∧ findings' = ⟨stage, result'.notices⟩ :: rest' ∧
        next product rest outcome ∧ next' product' rest' outcome' := by
  cases h with
  | fails hout =>
    obtain ⟨hnonzero, rfl⟩ := StageResult.outcome_eq_error_iff.mp hout
    cases h' with
    | fails hout' =>
      obtain ⟨-, rfl⟩ := StageResult.outcome_eq_error_iff.mp hout'
      exact .inl ⟨rfl, rfl, by rw [herrors]⟩
    | on hout' =>
      obtain ⟨hzero, -⟩ := StageResult.outcome_eq_ok_iff.mp hout'
      exact absurd (herrors.symm.trans hzero) hnonzero
  | on hout hrest =>
    obtain ⟨hzero, -⟩ := StageResult.outcome_eq_ok_iff.mp hout
    cases h' with
    | fails hout' =>
      obtain ⟨hnonzero, -⟩ := StageResult.outcome_eq_error_iff.mp hout'
      exact absurd (herrors.trans hzero) hnonzero
    | on hout' hrest' => exact .inr ⟨_, _, _, _, hout, hout', rfl, rfl, hrest, hrest'⟩

/-- Two stages that find as many errors come to the same if what follows them does. -/
theorem Goes.outcome_eq (herrors : result'.errors = result.errors)
    (hnext : ∀ {product product' findings findings' outcome outcome'},
      result.outcome = .ok product → result'.outcome = .ok product' →
        next product findings outcome → next' product' findings' outcome' → outcome' = outcome)
    (h : Goes stage result next findings outcome)
    (h' : Goes stage result' next' findings' outcome') : outcome' = outcome := by
  rcases h.cases_of_errors_eq herrors h' with
    ⟨-, -, hsame⟩ | ⟨_, _, _, _, hout, hout', -, -, hrest, hrest'⟩
  · exact hsame
  · exact hnext hout hout' hrest hrest'

end Goes

variable {rename : String → String} {tree tree' root root' : Node}
  {findings findings' : List Finding} {outcome outcome' : Except AssemblyFailure Image}

/-- **Symbol resolution and encoding come to the same under other names.** -/
theorem RunResolution.outcome_eq (h : RunResolution root findings outcome)
    (h' : RunResolution root' findings' outcome') (halike : root.Alike (Renames rename) root')
    (hown : ∀ node ∈ root.children, node.RecordsOwnFormat)
    (hinj : Set.InjOn rename {name | name ∈ root.labelNames}) : outcome' = outcome := by
  refine Goes.outcome_eq (SymbolTable.errors_build_renamed halike hinj) ?_ h h'
  rintro symbols symbols' _ _ _ _ hsymbols hsymbols' ⟨encoded, hencode, hgoes⟩
    ⟨encoded', hencode', hgoes'⟩
  have hchildren := settlesTo_of_build halike hinj hsymbols hsymbols'
  obtain ⟨herrors, hproduct⟩ := encode_settled hchildren hown hencode hencode'
  refine Goes.outcome_eq herrors ?_ hgoes hgoes'
  rintro image image' _ _ _ _ himage himage' ⟨-, rfl⟩ ⟨-, rfl⟩
  rw [← (StageResult.outcome_eq_ok_iff.mp himage).2, ← (StageResult.outcome_eq_ok_iff.mp himage').2,
    hproduct]

/-- **The stages behind reading come to the same under other names**: to the same image, or to an
    end at the same stage with as many errors. -/
theorem RunAnalysis.outcome_eq (h : RunAnalysis tree findings outcome)
    (h' : RunAnalysis tree' findings' outcome') (halike : tree.Alike (Renames rename) tree')
    (hinj : Set.InjOn rename {name | name ∈ tree.labelNames}) : outcome' = outcome := by
  refine Goes.outcome_eq halike.errors_analyze ?_ h h'
  intro root root' _ _ _ _ hroot hroot' hrun hrun'
  obtain ⟨hnone, rfl⟩ := StageResult.outcome_eq_ok_iff.mp hroot
  obtain ⟨-, rfl⟩ := StageResult.outcome_eq_ok_iff.mp hroot'
  refine RunResolution.outcome_eq hrun hrun' ?_ (recordsOwnFormat_of_errors_eq_zero hnone)
    (hinj.mono (labelNames_analyze_subset tree))
  exact halike.analyze id fun _ _ => Renames.recordFormat

end Assembly

end LC3
