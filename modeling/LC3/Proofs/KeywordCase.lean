import LC3.Proofs.LabelNames
import LC3.Proofs.Rewriting
import Mathlib.Data.List.Nodup

namespace LC3

/-!
# The case of keywords does not matter

A source in which keywords, registers and hexadecimal numbers are written in another case, and the
flags of branches in another order, is read as the same tree but for the texts of these words. So it
is assembled to the same words, or fails at the same stage with as many errors.

* `Node.Kind.Recases` — the other spellings of the word of a node.
* `Node.Recases` — the words of a source that have such spellings, with their places.
* `Node.SamePlace` — nodes whose tokens are the same but for their texts.
* `assemble_recased` — what comes of a source and one in which such words are spelled otherwise.
-/

/-! ### Words with other spellings -/

namespace Node

/-- Whether the word of a node of some kind can also be spelled in another way: in another case, and
    the flags of a branch in any order. Labels keep their spelling. -/
def Kind.Recases (kind : Kind) (word word' : List Char) : Prop :=
  match kind with
  | .instruction _ _ (some _) => Keyword.SameBranch word word'
  | .instruction _ _ none | .directive _ | .register _ | .number _ => SameLetters word word'
  | _ => False

instance (kind : Kind) (word word' : List Char) : Decidable (kind.Recases word word') := by
  unfold Kind.Recases
  split <;> infer_instance

/-- Whether a word behind some text has become a node of a tree, and can also be spelled in another
    way. -/
def Recases (tree : Node) (place word word' : List Char) : Prop :=
  ∃ node ∈ tree.walk, node.token? = some ⟨.word, .ofList word, .after place⟩ ∧
    node.kind.Recases word word'

instance (tree : Node) (place word word' : List Char) :
    Decidable (tree.Recases place word word') :=
  inferInstanceAs (Decidable (∃ node ∈ tree.walk, _ ∧ _))

end Node

/-- Words with the same letters are the same to the lexer. -/
theorem SameLetters.sameWord {word word' : List Char} (h : SameLetters word word') :
    SameWord word word' := by
  have hmap : word'.map Char.toUpper = word.map Char.toUpper := h
  refine ⟨?_, by rw [hmap]⟩
  rw [← List.head?_map, ← List.head?_map, hmap]

/-- So are branches with the same flags. -/
theorem Keyword.SameBranch.sameWord {word word' : List Char} (h : SameBranch word word') :
    SameWord word word' := by
  have hbranch : (word'.take 2).map Char.toUpper = (word.take 2).map Char.toUpper := h.branch
  constructor
  · have hhead : ∀ text : List Char, (text.take 2).head? = text.head? := by
      intro text
      cases text <;> rfl
    rw [← hhead word', ← hhead word, ← List.head?_map, ← List.head?_map, hbranch]
  · rw [← List.take_append_drop 2 word', ← List.take_append_drop 2 word, List.map_append,
      List.map_append, hbranch]
    exact h.suffix.append_left _

/-- So are the words that a node can be spelled with. -/
theorem Node.Kind.Recases.sameWord {kind : Kind} {word word' : List Char}
    (h : kind.Recases word word') : SameWord word word' := by
  unfold Recases at h
  split at h
  case h_1 => exact h.sameWord
  case h_6 => exact h.elim
  all_goals exact h.sameWord

/-- Flags have no word of their own. -/
theorem Node.Kind.Recases.isFlags_eq_false {node : Node} {word word' : List Char}
    (h : node.kind.Recases word word') : node.isFlags = false := by
  unfold Recases at h
  unfold isFlags
  cases hkind : node.kind <;> simp_all

/-! ### What the words of nodes mean -/

/-- Whether a word means what a node stands for, if this is a keyword, a register or a number. -/
def Node.Kind.IsMeantBy (kind : Node.Kind) (word : String) : Prop :=
  match kind with
  | .instruction mnemonic _ flags? => Keyword.lookup word = .instruction mnemonic flags?
  | .directive meant => Directive.ofName? word = some meant
  | .register meant => Register.ofName? word = some meant
  | .number _ => Grammar.IsHexForm word
  | _ => True

/-- Whether the word that a node comes from means what the node stands for. -/
def Node.IsMeant (node : Node) : Prop :=
  ∀ word, node.token? = some word → word.kind = .word → node.kind.IsMeantBy word.text

/-- A word that tells what a node is means this. -/
theorem Node.Kind.IsReadFrom.isMeantBy {kind : Node.Kind} {word : Token}
    (h : kind.IsReadFrom word) (hword : word.kind = .word) : kind.IsMeantBy word.text := by
  cases kind with
  | instruction | directive | register => exact h.2
  | number value =>
    rcases h with hdigits | ⟨-, value, -, hvalue, -⟩
    · rw [hword] at hdigits
      cases hdigits
    · exact ⟨value, hvalue⟩
  | _ => trivial

/-! ### Nodes at the same place -/

/-- Whether two tokens are the same but for their texts. -/
structure Token.SamePlace (token other : Token) : Prop where
  kind : other.kind = token.kind
  location : other.location = token.location

namespace Node

/-- Whether the tokens of two nodes are the same but for their texts. -/
def SamePlace (node other : Node) : Prop :=
  Option.Rel Token.SamePlace node.token? other.token?

variable {related : Token → Token → Prop}

/-- A node whose token takes the place of that of another one is at the same place. -/
private theorem Spells.samePlace {node other : Node} (h : node.Spells related other)
    (hrelated : ∀ token other, related token other → token.SamePlace other)
    (hplain : node.isFlags = false) : node.SamePlace other := by
  have hrel := h hplain
  unfold SamePlace
  generalize node.token? = token? at hrel
  generalize other.token? = other? at hrel
  cases hrel with
  | none => exact .none
  | some htoken => exact .some (hrelated _ _ htoken)

/-- Flags are where their branch is, so below nodes that are alike all nodes are at the same
    places. -/
private theorem forall₂_samePlace {node other : Node} (h : node.Alike (Spells related) other)
    (hrelated : ∀ token other, related token other → token.SamePlace other)
    (hlead : node.FlagsLead) (hlead' : other.FlagsLead) :
    List.Forall₂ SamePlace node.children other.children := by
  have hchildren := List.forall₂_iff_get.mp h.children
  refine List.forall₂_iff_get.mpr ⟨hchildren.1, fun i hi hi' => ?_⟩
  have hchild := hchildren.2 i hi hi'
  cases hflags : (node.children.get ⟨i, hi⟩).isFlags with
  | false => exact hchild.top.samePlace hrelated hflags
  | true =>
    obtain ⟨flags, hkind⟩ : ∃ flags, (node.children.get ⟨i, hi⟩).kind = .flags flags := by
      unfold isFlags at hflags
      split at hflags
      case h_1 flags hkind => exact ⟨flags, hkind⟩
      case h_2 => cases hflags
    -- flags are below a branch, whose word they have their place from
    have hsplit : ∀ (nodes : List Node) (h : i < nodes.length),
        nodes = nodes.take i ++ nodes.get ⟨i, h⟩ :: nodes.drop (i + 1) := by
      intro nodes h
      rw [List.get_eq_getElem, ← List.drop_eq_getElem_cons, List.take_append_drop]
    obtain ⟨-, _, word, _, _, hbranch, hword, -, htoken⟩ :=
      hlead _ _ _ flags (hsplit _ hi) hkind
    obtain ⟨-, _, word', _, _, -, hword', -, htoken'⟩ :=
      hlead' _ _ _ flags (hsplit _ hi') (hchild.kind_eq.trans hkind)
    have hsame := h.top (by rw [isFlags, hbranch])
    rw [hword, hword'] at hsame
    obtain ⟨hkind, hlocation⟩ : word.SamePlace word' := by
      cases hsame with
      | some hsame => exact hrelated _ _ hsame
    rw [SamePlace, htoken, htoken']
    exact .some ⟨hkind, by rw [hlocation]⟩

mutual

/-- Trees whose tokens take each other's places are the same but for the texts of their tokens. -/
theorem Alike.samePlace (hrelated : ∀ token other, related token other → token.SamePlace other) :
    ∀ {node other : Node}, node.Alike (Spells related) other →
    (∀ a ∈ node.walk, a.FlagsLead) → (∀ b ∈ other.walk, b.FlagsLead) → node.SamePlace other →
      node.Alike SamePlace other
  | ⟨kind, token?, children⟩, other, h, hlead, hlead', hplace => by
    have hchildren := forall₂_samePlace h hrelated
      (hlead _ (by rw [walk]; exact List.mem_cons_self))
      (hlead' _ (by rw [walk_eq]; exact List.mem_cons_self))
    rw [walk, List.forall_mem_cons] at hlead
    rw [walk_eq, List.forall_mem_cons] at hlead'
    rw [Alike] at h ⊢
    exact ⟨h.1, hplace, AlikeAll.samePlace hrelated h.2.2 hlead.2 hlead'.2 hchildren⟩

/-- Trees that are alike have all nodes at the same places if their roots are at the same places. -/
theorem AlikeAll.samePlace (hrelated : ∀ token other, related token other → token.SamePlace other) :
    ∀ {nodes others : List Node}, AlikeAll (Spells related) nodes others →
    (∀ a ∈ walkAll nodes, a.FlagsLead) → (∀ b ∈ walkAll others, b.FlagsLead) →
      List.Forall₂ SamePlace nodes others → AlikeAll SamePlace nodes others
  | [], _, h, _, _, _ => h
  | _ :: _, [], h, _, _, _ => h.elim
  | node :: nodes, other :: others, h, hlead, hlead', hplaces => by
    rw [AlikeAll] at h ⊢
    rw [walkAll, List.forall_mem_append] at hlead hlead'
    obtain ⟨hplace, hplaces⟩ := List.forall₂_cons.mp hplaces
    exact ⟨Alike.samePlace hrelated h.1 hlead.1 hlead'.1 hplace,
      AlikeAll.samePlace hrelated h.2 hlead.2 hlead'.2 hplaces⟩

end

end Node

section Source

variable {source source' : String} {result result' : StageResult Node} {tree tree' : Node}

/-- The words of a source mean what the nodes of its tree stand for. -/
theorem Node.isMeant_of_parse (hparse : parse source = .ok result)
    (hout : result.outcome = .ok tree) : ∀ node ∈ tree.walk, node.IsMeant := by
  have hroot := (comesFrom_of_parse hparse hout).isRoot
  intro node hnode word hword hkind
  rw [walk_eq] at hnode
  rcases List.mem_cons.mp hnode with rfl | hnode
  · rw [hroot]
    trivial
  cases hflags : node.isFlags with
  | true =>
    -- flags mean nothing by themselves
    unfold isFlags at hflags
    split at hflags
    case h_1 hnode => rw [hnode]; trivial
    case h_2 => cases hflags
  | false =>
    obtain ⟨token, htoken, hread⟩ := isRead_of_parse hparse hout node hnode hflags
    obtain rfl := Option.some.inj (hword.symm.trans htoken)
    exact hread.isMeantBy hkind

/-- The grammar takes a word for the same if it differs in case only, unless it is a branch. -/
private theorem Token.synonym_of_sameLetters {token other : Token} (hkind : other.kind = token.kind)
    (hword : token.kind = .word) (hsame : SameLetters token.text.toList other.text.toList)
    (hbranch : ∀ suffix, Keyword.branchSuffix? token.text.toList = some suffix →
      ∃ mnemonic flags?, Keyword.lookup token.text = .instruction mnemonic flags?) :
    token.Synonym other := by
  refine ⟨hkind, fun hother => absurd hword hother, Keyword.lookup_sameLetters hsame ?_,
    hsame.directive_eq, hsame.register_eq, hsame.hexNumber_iff⟩
  intro letter hrepeated
  obtain ⟨suffix, hsuffix⟩ := Keyword.exists_branchSuffix? (.inr ⟨letter, hrepeated⟩)
  obtain ⟨mnemonic, flags?, hlookup⟩ := hbranch suffix hsuffix
  rw [hrepeated] at hlookup
  cases hlookup

/-- The grammar takes a branch for the same if its flags are in another order. -/
private theorem Token.synonym_of_sameBranch {token other : Token} {mnemonic : Mnemonic}
    {flags : Flags} (hkind : other.kind = token.kind) (hword : token.kind = .word)
    (hsame : Keyword.SameBranch token.text.toList other.text.toList)
    (hlookup : Keyword.lookup token.text = .instruction mnemonic (some flags)) :
    token.Synonym other := by
  obtain ⟨suffix, hsuffix⟩ := Keyword.exists_branchSuffix? (.inl ⟨mnemonic, flags, hlookup⟩)
  obtain ⟨⟨suffix', hsuffix'⟩, hlookup'⟩ := Keyword.lookup_sameBranch hsame hlookup
  obtain ⟨hdirective, hregister, hnumber⟩ := Keyword.none_of_branchSuffix? hsuffix
  obtain ⟨hdirective', hregister', hnumber'⟩ := Keyword.none_of_branchSuffix? hsuffix'
  -- a word with the suffix of a branch is nothing else
  exact {
    kind := hkind
    text := fun hother => absurd hword hother
    instruction := hlookup'.trans hlookup.symm
    directive := hdirective'.trans hdirective.symm
    register := hregister'.trans hregister.symm
    hexNumber := fun value => iff_of_false (hnumber' value) (hnumber value) }

/-- The grammar takes a word for the same if it is spelled otherwise in the place of a node. -/
theorem Token.Rewritten.synonym {token other : Token} (hmeant : ∀ node ∈ tree.walk, node.IsMeant)
    (h : token.Rewritten tree.Recases other) : token.Synonym other := by
  rcases h.text with htext | ⟨hword, place, hplace, node, hnode, htoken, hrecases⟩
  · exact .of_text_eq h.kind htext
  have hmeant := hmeant node hnode _ htoken rfl
  rw [String.ofList_toList] at hmeant
  unfold Node.Kind.IsMeantBy at hmeant
  unfold Node.Kind.Recases at hrecases
  -- a word that is no instruction is not a branch either
  split at hmeant
  case h_1 mnemonic format? flags? hkind =>
    rw [hkind] at hrecases
    cases flags? with
    | none => exact synonym_of_sameLetters h.kind hword hrecases fun _ _ => ⟨mnemonic, none, hmeant⟩
    | some flags => exact synonym_of_sameBranch h.kind hword hrecases hmeant
  case h_2 directive hkind =>
    rw [hkind] at hrecases
    refine synonym_of_sameLetters h.kind hword hrecases fun suffix hsuffix => ?_
    rw [(Keyword.none_of_branchSuffix? hsuffix).1] at hmeant
    cases hmeant
  case h_3 register hkind =>
    rw [hkind] at hrecases
    refine synonym_of_sameLetters h.kind hword hrecases fun suffix hsuffix => ?_
    rw [(Keyword.none_of_branchSuffix? hsuffix).2.1] at hmeant
    cases hmeant
  case h_4 value hkind =>
    rw [hkind] at hrecases
    refine synonym_of_sameLetters h.kind hword hrecases fun suffix hsuffix => ?_
    obtain ⟨value, hvalue⟩ := hmeant
    exact absurd hvalue ((Keyword.none_of_branchSuffix? hsuffix).2.2 value)
  case h_5 hinstruction hdirective hregister hnumber =>
    split at hrecases
    case h_1 hkind => exact absurd hkind (hinstruction _ _ _)
    case h_2 hkind => exact absurd hkind (hinstruction _ _ _)
    case h_3 hkind => exact absurd hkind (hdirective _)
    case h_4 hkind => exact absurd hkind (hregister _)
    case h_5 hkind => exact absurd hkind (hnumber _)
    case h_6 => exact hrecases.elim

/-! ### Labels are left alone -/

/-- The tokens that a tree keeps are all distinct. -/
theorem Lexer.nodup_content (source : String) :
    ((Lexer.ofSource source).tokens.1.filter (·.IsContent)).Nodup := by
  obtain ⟨⟨last, htokens, hlast, hsplits⟩, -⟩ :=
    Lexer.splits_spans (Lexer.stands_ofSource source) rfl (Nat.lt_succ_self _)
  have hend : [last].filter (·.IsContent) = [] := by simp [Token.IsContent, hlast]
  rw [Lexer.tokens, htokens, List.filter_append, hend, List.append_nil]
  refine List.Nodup.filter _ (List.pairwise_map.mpr ?_)
  -- each token starts behind the one in front of it
  refine hsplits.pairwise.imp_of_mem fun {first second} hfirst _ hstop heq => ?_
  have hstart : first.start = second.start := by rw [Span.start, Span.start, heq]
  have hpos := (hsplits.bounds.2 first hfirst).2.1
  omega

/-- A node with a token is below the root, unless it is the flags of a branch. -/
private theorem Node.mem_filter_walkAll {nodes : List Node} {node : Node} {token : Token}
    (hnode : node ∈ (root nodes).walk) (hplain : node.isFlags = false)
    (htoken : node.token? = some token) :
    node ∈ (walkAll nodes).filter fun node => !node.isFlags := by
  rw [root, walk] at hnode
  rcases List.mem_cons.mp hnode with rfl | hnode
  · cases htoken
  · exact List.mem_filter.mpr ⟨hnode, by rw [hplain]; rfl⟩

/-- The token of a node is one of the source, unless the node is the flags of a branch. -/
theorem Node.mem_tokens_of_mem_walk {node : Node} {token : Token}
    (hparse : parse source = .ok result) (hout : result.outcome = .ok tree)
    (hnode : node ∈ tree.walk) (hplain : node.isFlags = false)
    (htoken : node.token? = some token) : token ∈ (Lexer.ofSource source).tokens.1 := by
  obtain ⟨nodes, rfl, hcarries⟩ := exists_carries hparse hout
  have hmem := (List.mem_filter.mp (mem_filter_walkAll hnode hplain htoken)).1
  exact hcarries.mem_tokens hmem hplain htoken

/-- Nodes that come from the same token are the same. -/
theorem Node.eq_of_token?_eq {node other : Node} {token : Token}
    (hparse : parse source = .ok result) (hout : result.outcome = .ok tree)
    (hnode : node ∈ tree.walk) (hother : other ∈ tree.walk) (hplain : node.isFlags = false)
    (hplain' : other.isFlags = false) (htoken : node.token? = some token)
    (htoken' : other.token? = some token) : node = other := by
  obtain ⟨nodes, rfl, hcarries⟩ := exists_carries hparse hout
  have hnodup : (carried nodes).Nodup := by
    rw [hcarries.content]
    exact (Lexer.nodup_content source).map (Option.some_injective _)
  exact List.inj_on_of_nodup_map hnodup (mem_filter_walkAll hnode hplain htoken)
    (mem_filter_walkAll hother hplain' htoken') (htoken.trans htoken'.symm)

/-- A label keeps its name when words are spelled otherwise in the places of other nodes. -/
private theorem Node.Spells.text_eq {node other : Node} (hparse : parse source = .ok result)
    (hout : result.outcome = .ok tree) (hnode : node ∈ tree.walk)
    (h : node.Spells (Token.Rewritten tree.Recases) other) : node.Renames id other := by
  intro hlabel
  have hplain := isFlags_of_isLabel hlabel
  rw [id, text, text]
  rcases h.token_cases hplain with ⟨hnone, hnone'⟩ | ⟨word, word', hword, hother, hrewritten⟩
  · rw [hnone, hnone']
  rw [hword, hother]
  rcases hrewritten.text with htext | ⟨hkind, place, hplace, node', hnode', htoken, hrecases⟩
  · exact htext
  -- the word would have become another node, too
  have hsame : (⟨.word, .ofList word.text.toList, .after place⟩ : Token) = word := by
    rw [String.ofList_toList, ← hkind, ← hplace]
  rw [hsame] at htoken
  obtain rfl := eq_of_token?_eq hparse hout hnode hnode' hplain hrecases.isFlags_eq_false hword
    htoken
  unfold isLabel at hlabel
  unfold Kind.Recases at hrecases
  cases hkind : node.kind <;> simp_all

/-- The tokens of a source in which words are spelled otherwise. -/
theorem Lexer.forall₂_tokens_recased (hparse : parse source = .ok result)
    (hout : result.outcome = .ok tree)
    (h : Text.Rewritten tree.Recases [] source.toList source'.toList) :
    List.Forall₂ (Token.Rewritten tree.Recases) (Lexer.ofSource source).tokens.1
      (Lexer.ofSource source').tokens.1 := by
  obtain ⟨⟨last, htokens, hlast, hsplits⟩, -⟩ :=
    splits_spans (stands_ofSource source) rfl (Nat.lt_succ_self _)
  have hcovers : Lexical.Covers tree.Recases []
      -- the words that are spelled otherwise are words of nodes, which have tokens of their own
      ((ofSource source).spans ((ofSource source).rest.length + 1)) := by
    rintro place word word' ⟨node, hnode, htoken, hrecases⟩ -
    have hmem := Node.mem_tokens_of_mem_walk hparse hout hnode hrecases.isFlags_eq_false htoken
    rw [tokens, htokens, List.mem_append, List.mem_singleton] at hmem
    rcases hmem with hmem | rfl
    · obtain ⟨span, hmem, hspan⟩ := List.mem_map.mp hmem
      refine ⟨span, hmem, ?_⟩
      rw [Span.start, hspan]
      exact ⟨rfl, rfl, String.toList_ofList⟩
    · cases hlast
  have hsame : ∀ place word word', tree.Recases place word word' → SameWord word word' := by
    rintro place word word' ⟨_, _, _, hrecases⟩
    exact hrecases.sameWord
  obtain ⟨spans', hsplits', hspans⟩ := hsplits.rewritten h rfl hsame hcovers
  rw [hsplits'.tokens_eq, tokens, htokens]
  refine List.rel_append ?_ (.cons ⟨rfl, rfl, .inl rfl⟩ .nil)
  exact List.forall₂_map_left_iff.mpr (List.forall₂_map_right_iff.mpr hspans)

/-- **The case of keywords does not matter.** Take a source that can be read, and another one in
    which words that have become instructions, directives, registers or hexadecimal numbers are
    written in another case, and the flags of branches in another order. Then the second source is
    read as the same tree but for the texts of tokens, and the two sources are assembled to the same
    words, or fail at the same stage with as many errors. -/
theorem assemble_recased (hparse : parse source = .ok result) (hout : result.outcome = .ok tree)
    (hrecased : Text.Rewritten tree.Recases [] source.toList source'.toList)
    (diagnostics diagnostics' : Diagnostics) :
    (∃ result' tree', parse source' = .ok result' ∧ result'.outcome = .ok tree' ∧
      tree.Alike Node.SamePlace tree') ∧
    ∃ assembly assembly', assemble source diagnostics = .ok assembly ∧
      assemble source' diagnostics' = .ok assembly' ∧ assembly'.outcome = assembly.outcome := by
  have hmeant := Node.isMeant_of_parse hparse hout
  have htokens := Lexer.forall₂_tokens_recased hparse hout hrecased
  obtain ⟨tree', ⟨result', hparse', hout'⟩, halike⟩ := exists_parse_respelled
    (fun _ _ htoken => Token.Rewritten.synonym hmeant htoken) htokens ⟨result, hparse, hout⟩
  constructor
  · obtain ⟨nodes, rfl, hcarries⟩ := exists_carries hparse hout
    obtain ⟨nodes', rfl, hcarries'⟩ := exists_carries hparse' hout'
    exact ⟨result', _, hparse', hout', halike.samePlace (fun _ _ h => ⟨h.kind, h.location⟩)
      hcarries.flagsLead_root hcarries'.flagsLead_root .none⟩
  · -- labels keep their names, so nothing behind reading can tell the trees apart
    have hrenamed : tree.Alike (Node.Renames id) tree' :=
      halike.imp fun node hnode other _ hspells => hspells.text_eq hparse hout hnode
    obtain ⟨assembly, _, _, hassemble, hrun, -⟩ := Assembly.completes_assemble source diagnostics
    obtain ⟨assembly', _, _, hassemble', hrun', -⟩ :=
      Assembly.completes_assemble source' diagnostics'
    obtain ⟨_, hanalysis⟩ := hrun.analysis hparse hout
    obtain ⟨_, hanalysis'⟩ := hrun'.analysis hparse' hout'
    exact ⟨assembly, assembly', hassemble, hassemble',
      hanalysis.outcome_eq hanalysis' hrenamed (Set.injOn_id _)⟩

/-- A small program in another case, with the flags of its branch in another order. -/
theorem assemble_recased_branch :
    let source := ".orig x3000\nloop ADD R0, R0, #-1\nBRnp loop\n.end"
    let source' := ".Orig X3000\nloop add r0, R0, #-1\nbrPN loop\n.END"
    ∃ assembly assembly', assemble source .empty = .ok assembly ∧
      assemble source' .empty = .ok assembly' ∧ assembly'.outcome = assembly.outcome ∧
        assembly.outcome = .ok ⟨[0x3000#16, 0x103F#16, 0x0BFE#16]⟩ := by
  intro source source'
  let pieces : List (List Char × List Char) :=
    [(".", "."), ("orig", "Orig"), (" ", " "), ("x3000", "X3000"), ("\nloop ", "\nloop "),
      ("ADD", "add"), (" ", " "), ("R0", "r0"), (", R0, #-1\n", ", R0, #-1\n"), ("BRnp", "brPN"),
      (" loop\n.", " loop\n."), ("end", "END")].map fun piece =>
        (piece.1.toList, piece.2.toList)
  -- each piece is the same in both sources, or it is a word of a node in another case
  have hread : (parse source).map (fun result => decide (result.errors = 0 ∧
      ∀ i (hi : i < pieces.length), pieces[i].2 = pieces[i].1 ∨ result.product.Recases
        ([] ++ (pieces.take i).flatMap Prod.fst) pieces[i].1 pieces[i].2)) = .ok true := by
    decide +kernel
  obtain ⟨result, hparse, hchecked⟩ := map_eq_ok_iff.mp hread
  obtain ⟨herrors, hpieces⟩ := of_decide_eq_true hchecked
  have hout : result.outcome = .ok result.product :=
    StageResult.outcome_eq_ok_iff.mpr ⟨herrors, rfl⟩
  have hsource : pieces.flatMap Prod.fst = source.toList ∧
      pieces.flatMap Prod.snd = source'.toList := by decide +kernel
  have hrecased : Text.Rewritten result.product.Recases [] source.toList source'.toList := by
    rw [← hsource.1, ← hsource.2]
    exact Text.Rewritten.of_pieces hpieces
  have hassemble : (assemble source .empty).map Assembly.outcome =
      .ok (.ok ⟨[0x3000#16, 0x103F#16, 0x0BFE#16]⟩) := by
    decide +kernel
  obtain ⟨-, assembly, assembly', h, h', hsame⟩ :=
    assemble_recased hparse hout hrecased .empty .empty
  refine ⟨assembly, assembly', h, h', hsame, ?_⟩
  rw [h] at hassemble
  exact Except.ok.inj hassemble

end Source

end LC3
