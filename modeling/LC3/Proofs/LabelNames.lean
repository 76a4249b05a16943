import LC3.Proofs.References
import LC3.Proofs.TreeRuns
import LC3.Proofs.Respelling

namespace LC3

/-!
# The names of labels do not matter

A source in which labels are renamed is assembled to the same words, or fails at the same stage with
as many errors, if different labels keep different names. The names have to be words that can only
be labels: no keywords, no registers and nothing of the form of a hexadecimal number.

* `IsLabelName` — words that can only be labels.
* `Node.HasLabel` — the words of a source that have become labels.
* `Token.RenamedIn` — the words that have become labels are renamed, and nothing else.
* `assemble_renamed` — what comes of two such sources.
-/

/-- Whether a word can only be a label, wherever a label can stand. -/
structure IsLabelName (word : String) : Prop where
  plain : Keyword.isReserved word = false
  register : Register.ofName? word = none
  form : ¬ Grammar.IsHexForm word

instance (word : String) : Decidable (Grammar.IsHexForm word) :=
  decidable_of_iff (((Line.hexDigits? word.toList).bind Text.hexValue?).isSome)
    (Option.isSome_iff_exists.trans (exists_congr fun _ => Line.hexValue_eq_some_iff))

instance (word : String) : Decidable (IsLabelName word) :=
  decidable_of_iff (Keyword.isReserved word = false ∧ Register.ofName? word = none ∧
      ¬ Grammar.IsHexForm word)
    ⟨fun ⟨plain, register, form⟩ => ⟨plain, register, form⟩, fun h => ⟨h.plain, h.register, h.form⟩⟩

/-- Whether a token has become a label of a tree, where it is defined or where it is used. -/
def Node.HasLabel (tree : Node) (token : Token) : Prop :=
  ∃ node ∈ tree.walk, node.isLabel ∧ node.token? = some token

instance (tree : Node) (token : Token) : Decidable (tree.HasLabel token) :=
  inferInstanceAs (Decidable (∃ node ∈ tree.walk, _ ∧ _))

/-- Whether a token of another source is the same but for its place, and renamed if it has become a
    label. -/
structure Token.RenamedIn (tree : Node) (rename : String → String) (token other : Token) :
    Prop where
  kind : other.kind = token.kind
  label : tree.HasLabel token → other.text = rename token.text
  aside : ¬ tree.HasLabel token → other.text = token.text

instance (tree : Node) (rename : String → String) (token other : Token) :
    Decidable (token.RenamedIn tree rename other) :=
  decidable_of_iff (other.kind = token.kind ∧
      (tree.HasLabel token → other.text = rename token.text) ∧
      (¬ tree.HasLabel token → other.text = token.text))
    ⟨fun ⟨kind, label, aside⟩ => ⟨kind, label, aside⟩, fun h => ⟨h.kind, h.label, h.aside⟩⟩

/-! ### Labels are words -/

/-- Whether a node that is a label comes from a word. -/
def Node.LabelsWord (node : Node) : Prop :=
  node.isLabel → ∃ word, node.token? = some word ∧ word.kind = .word

/-- The labels in the tree of a source are words. -/
theorem Node.labelsWord_of_parse {source : String} {result : StageResult Node} {tree : Node}
    (hparse : parse source = .ok result) (hout : result.outcome = .ok tree) :
    ∀ node ∈ tree.walk, node.LabelsWord := by
  intro node hnode hlabel
  have hkind : node.kind = .labelDefinition ∨ node.kind = .labelReference := by
    simpa [isLabel] using hlabel
  -- a label stands among the read nodes, so its token shows what it is read from
  have hmem := mem_walkAll_of_mem_walk (comesFrom_of_parse hparse hout).isRoot hnode
    (by rcases hkind with h | h <;> simp [h])
  obtain ⟨token, htoken, hread⟩ := isRead_of_parse hparse hout node hmem (isFlags_of_isLabel hlabel)
  refine ⟨token, htoken, ?_⟩
  rcases hkind with hkind | hkind <;> rw [hkind] at hread
  · exact hread
  · exact hread.1

/-! ### Renaming -/

/-- The grammar takes all words that can only be labels for the same. -/
theorem IsLabelName.synonym {token other : Token} (h : IsLabelName token.text)
    (h' : IsLabelName other.text) (hkind : other.kind = token.kind) (hword : token.kind = .word) :
    token.Synonym other := by
  -- a word that is not reserved is neither an instruction nor a directive
  have hlookup : ∀ {word : String}, Keyword.isReserved word = false →
      Keyword.lookup word = .unknown ∧ Directive.ofName? word = none := by
    intro word hplain
    simpa [Keyword.isReserved] using hplain
  obtain ⟨hinstruction, hdirective⟩ := hlookup h.plain
  obtain ⟨hinstruction', hdirective'⟩ := hlookup h'.plain
  exact {
    kind := hkind
    text := fun hother => absurd hword hother
    instruction := hinstruction'.trans hinstruction.symm
    directive := hdirective'.trans hdirective.symm
    register := h'.register.trans h.register.symm
    hexNumber := fun value =>
      iff_of_false (fun hvalue => h'.form ⟨value, hvalue⟩) fun hvalue => h.form ⟨value, hvalue⟩ }

/-- The grammar takes tokens of the same kind and text for the same. -/
theorem Token.Synonym.of_text_eq {token other : Token} (hkind : other.kind = token.kind)
    (htext : other.text = token.text) : token.Synonym other where
  kind := hkind
  text _ := htext
  instruction := by rw [htext]
  directive := by rw [htext]
  register := by rw [htext]
  hexNumber _ := by rw [htext]

variable {source source' : String} {result : StageResult Node} {tree : Node}
  {rename : String → String}

/-- The grammar takes a word for the same if it is renamed from one that can only be a label to
    another. -/
theorem Token.RenamedIn.synonym {token other : Token}
    (hword : ∀ node ∈ tree.walk, node.LabelsWord)
    (hnames : ∀ name ∈ tree.labelNames, IsLabelName name ∧ IsLabelName (rename name))
    (h : token.RenamedIn tree rename other) : token.Synonym other := by
  by_cases hlabel : tree.HasLabel token
  · -- the token of a label: its text is one of the names, and is renamed to another name
    obtain ⟨node, hnode, hislabel, htoken⟩ := hlabel
    obtain ⟨word, hword, hkind⟩ := hword node hnode hislabel
    obtain rfl := Option.some.inj (htoken.symm.trans hword)
    have htext : node.text = token.text := by rw [Node.text, htoken]
    have hname : token.text ∈ tree.labelNames := htext ▸ Node.mem_labelNames hnode hislabel
    refine (hnames _ hname).1.synonym ?_ h.kind hkind
    rw [h.label ⟨node, hnode, hislabel, htoken⟩]
    exact (hnames _ hname).2
  · -- any other token keeps its text
    exact .of_text_eq h.kind (h.aside hlabel)

/-- A label whose word is replaced by the renamed one is renamed. -/
theorem Node.Spells.renames {node other : Node} (hword : ∀ node ∈ tree.walk, node.LabelsWord)
    (hnode : node ∈ tree.walk) (h : node.Spells (Token.RenamedIn tree rename) other) :
    node.Renames rename other := by
  intro hlabel
  obtain ⟨word, htoken, -⟩ := hword node hnode hlabel
  rcases h.token_cases (isFlags_of_isLabel hlabel) with
    ⟨hnone, -⟩ | ⟨word', other', hword', hother, hrenamed⟩
  · cases htoken.symm.trans hnone
  · rw [text, text, hword', hother]
    exact hrenamed.label ⟨node, hnode, hlabel, hword'⟩

/-- **The names of labels do not matter.** Take a source that can be read, and another with the same
    tokens but for the words that have become labels: these are renamed in a way that keeps them
    apart, and both the old names and the new ones can only be labels. Then the two sources are
    assembled to the same words, or fail at the same stage with as many errors. -/
theorem assemble_renamed (hparse : parse source = .ok result) (hout : result.outcome = .ok tree)
    (hnames : ∀ name ∈ tree.labelNames, IsLabelName name ∧ IsLabelName (rename name))
    (hinj : Set.InjOn rename {name | name ∈ tree.labelNames})
    (htokens : List.Forall₂ (Token.RenamedIn tree rename) (Lexer.ofSource source).tokens.1
      (Lexer.ofSource source').tokens.1) (diagnostics diagnostics' : Diagnostics) :
    ∃ assembly assembly', assemble source diagnostics = .ok assembly ∧
      assemble source' diagnostics' = .ok assembly' ∧ assembly'.outcome = assembly.outcome := by
  have hword := Node.labelsWord_of_parse hparse hout
  obtain ⟨tree', ⟨result', hparse', hout'⟩, halike⟩ := exists_parse_respelled
    (fun _ _ htoken => Token.RenamedIn.synonym hword hnames htoken) htokens ⟨result, hparse, hout⟩
  have hrenamed : tree.Alike (Node.Renames rename) tree' :=
    halike.imp fun node hnode other _ hspells => hspells.renames hword hnode
  obtain ⟨assembly, _, _, hassemble, hrun, -⟩ := Assembly.completes_assemble source diagnostics
  obtain ⟨assembly', _, _, hassemble', hrun', -⟩ := Assembly.completes_assemble source' diagnostics'
  obtain ⟨_, hanalysis⟩ := hrun.analysis hparse hout
  obtain ⟨_, hanalysis'⟩ := hrun'.analysis hparse' hout'
  exact ⟨assembly, assembly', hassemble, hassemble',
    hanalysis.outcome_eq hanalysis' hrenamed hinj⟩

/-- Two labels, of which one gets the old name of the other. -/
theorem assemble_renamed_crossed :
    let source := ".orig x3000\nLOOP ADD R0, R0, #-1\nBRp LOOP\nHALT\nDATA .fill LOOP\n.end"
    let source' := ".orig x3000 ; start\nDATA ADD R0, R0, #-1\nBRp DATA\nHALT\nx1z .fill DATA\n.end"
    ∃ assembly assembly', assemble source .empty = .ok assembly ∧
      assemble source' .empty = .ok assembly' ∧ assembly'.outcome = assembly.outcome ∧
        assembly.outcome = .ok ⟨[0x3000#16, 0x103F#16, 0x03FE#16, 0xF025#16, 0x3000#16]⟩ := by
  intro source source'
  let rename (name : String) : String := if name = "LOOP" then "DATA" else "x1z"
  have hread : (parse source).map (fun result => decide (result.errors = 0 ∧
      result.product.labelNames = ["LOOP", "LOOP", "DATA", "LOOP"] ∧
      List.Forall₂ (Token.RenamedIn result.product rename) (Lexer.ofSource source).tokens.1
        (Lexer.ofSource source').tokens.1)) = .ok true := by
    decide +kernel
  obtain ⟨result, hparse, hchecked⟩ := map_eq_ok_iff.mp hread
  obtain ⟨herrors, hlabels, htokens⟩ := of_decide_eq_true hchecked
  have hout : result.outcome = .ok result.product :=
    StageResult.outcome_eq_ok_iff.mpr ⟨herrors, rfl⟩
  have hnames : ∀ name ∈ result.product.labelNames,
      IsLabelName name ∧ IsLabelName (rename name) := by
    rw [hlabels]
    decide +kernel
  -- only the names of the tree are to be kept apart
  have hinj : Set.InjOn rename {name | name ∈ result.product.labelNames} := by
    have hall : ∀ a ∈ ["LOOP", "LOOP", "DATA", "LOOP"], ∀ b ∈ ["LOOP", "LOOP", "DATA", "LOOP"],
        rename a = rename b → a = b := by
      decide +kernel
    rw [hlabels]
    exact fun a ha b hb => hall a ha b hb
  have hassemble : (assemble source .empty).map Assembly.outcome =
      .ok (.ok ⟨[0x3000#16, 0x103F#16, 0x03FE#16, 0xF025#16, 0x3000#16]⟩) := by
    decide +kernel
  obtain ⟨assembly, assembly', h, h', hsame⟩ :=
    assemble_renamed hparse hout hnames hinj htokens .empty .empty
  refine ⟨assembly, assembly', h, h', hsame, ?_⟩
  rw [h] at hassemble
  exact Except.ok.inj hassemble

end LC3
