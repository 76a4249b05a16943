import LC3.Proofs.Document

namespace LC3

/-!
# The tokens of a tree

The nodes of a tree carry the tokens that they come from. Punctuation has done its work when a line
has been read; every other token is carried by exactly one node. Only the flags of a branch have a
token of their own, a part of that of the branch.

* `Node.FlagsLead` — where the flags of a branch are, and what their token is.
* `Node.Carries` — some nodes carry some tokens, in order.
* `Grammar.builds_carries`, `exists_built` — what is kept line by line holds of a whole source.
* `parse_carries` — the tree of a source carries the tokens of the source.
-/

/-- Whether a token is one of those that a tree keeps. -/
def Token.IsContent (token : Token) : Prop :=
  token.kind ∈ [.word, .number, .string]

instance (token : Token) : Decidable token.IsContent :=
  inferInstanceAs (Decidable (_ ∈ _))

/-! ### Flags -/

/-- Only a letter takes one byte in upper case. -/
private theorem utf8Size_of_toUpper {c d : Char} (h : c.toUpper = d) (hd : d.utf8Size = 1) :
    c.utf8Size = 1 := by
  unfold Char.toUpper at h
  split at h
  case isTrue hletter =>
    obtain ⟨hleast, hgreatest⟩ := hletter
    rw [UInt32.le_iff_toNat_le] at hleast hgreatest
    rw [Char.utf8Size_eq_one_iff, UInt32.le_iff_toNat_le]
    exact Nat.le_trans hgreatest (by decide)
  case isFalse => rw [h, hd]

/-- The word of a branch with flags can be cut behind its first two bytes. -/
theorem Keyword.branch_of_lookup {word : String} {mnemonic : Mnemonic} {flags : Flags}
    (h : lookup word = .instruction mnemonic (some flags)) :
    mnemonic = .br ∧
      Text.cutBytes? 2 word.toList = some (word.toList.take 2, word.toList.drop 2) := by
  have hplain : lookupPlain word ≠ .instruction mnemonic (some flags) := by
    unfold lookupPlain
    split <;> simp
  unfold lookup at h
  split at h
  case h_1 => exact absurd h hplain
  case h_2 suffix hsuffix =>
    unfold branchSuffix? at hsuffix
    split at hsuffix
    case h_2 => cases hsuffix
    case h_1 b r rest hword =>
      split at hsuffix
      case isFalse => cases hsuffix
      case isTrue hletters =>
        split at h
        case h_2 => cases h
        case h_3 => exact absurd h hplain
        case h_1 =>
          obtain ⟨rfl, -⟩ := Meaning.instruction.inj h
          rw [hword]
          -- both letters take one byte, in either case
          have hb : b.utf8Size = 1 := utf8Size_of_toUpper hletters.1 rfl
          have hr : r.utf8Size = 1 := utf8Size_of_toUpper hletters.2 rfl
          refine ⟨rfl, Text.cutBytes?_eq_some_iff.mpr ⟨rfl, ?_⟩⟩
          show b.utf8Size + (r.utf8Size + 0) = 2
          omega

namespace Node

/-- Whether a node stands for the flags of a branch. -/
def isFlags (node : Node) : Bool :=
  match node.kind with
  | .flags _ => true
  | _ => false

theorem isFlags_eq_false_iff {node : Node} :
    node.isFlags = false ↔ ∀ flags, node.kind ≠ .flags flags := by
  unfold isFlags
  cases node.kind <;> simp

/-- Recording a format makes no flags and loses none. -/
@[simp] theorem isFlags_recordFormat (node : Node) :
    node.recordFormat.isFlags = node.isFlags := by
  rcases recordFormat_cases node with h | ⟨_, _, _, _, hkind, h⟩
  · rw [h]
  · rw [h, isFlags, isFlags, hkind]

/-- Whether the flags among the children of a node are where they belong: in front of the operands
    of a branch, with the part of its word behind the first two bytes. -/
def FlagsLead (node : Node) : Prop :=
  ∀ before flagsNode after flags, node.children = before ++ flagsNode :: after →
    flagsNode.kind = .flags flags →
    before = [] ∧ ∃ format? word front suffix, node.kind = .instruction .br format? (some flags) ∧
      node.token? = some word ∧ Text.cutBytes? 2 word.text.toList = some (front, suffix) ∧
      flagsNode.token? =
        some { word with text := String.ofList suffix, location := word.location.shifted 2 }

/-- Without flags there are none in the wrong place. -/
theorem flagsLead_of_forall {node : Node} (h : ∀ child ∈ node.children, child.isFlags = false) :
    node.FlagsLead := by
  intro before flagsNode after flags hchildren hkind
  have hmem : flagsNode ∈ node.children := by
    rw [hchildren]
    exact List.mem_append_right _ List.mem_cons_self
  exact absurd hkind (isFlags_eq_false_iff.mp (h flagsNode hmem) flags)

/-- The flags of a branch lead its operands. -/
theorem flagsLead_instruction {mnemonic : Mnemonic} {flags? : Option Flags} {word : Token}
    {operands : List Node} (hword : Keyword.lookup word.text = .instruction mnemonic flags?)
    (hoperands : ∀ node ∈ operands, node.isFlags = false) :
    FlagsLead ⟨.instruction mnemonic none flags?, some word,
      (flags?.map (Line.flagsNode · word)).toList ++ operands⟩ := by
  cases flags? with
  | none => exact flagsLead_of_forall hoperands
  | some flags =>
    intro before flagsNode after flags' hchildren hkind
    cases before with
    | cons first before =>
      -- behind the flags there are only operands
      have hrest : operands = before ++ flagsNode :: after := (List.cons.inj hchildren).2
      have hmem : flagsNode ∈ operands := by
        rw [hrest]
        exact List.mem_append_right _ List.mem_cons_self
      exact absurd hkind (isFlags_eq_false_iff.mp (hoperands flagsNode hmem) flags')
    | nil =>
      obtain ⟨rfl, -⟩ := List.cons.inj hchildren
      obtain rfl := Kind.flags.inj hkind
      obtain ⟨rfl, hcut⟩ := Keyword.branch_of_lookup hword
      exact ⟨rfl, none, word, _, _, rfl, rfl, hcut, rfl⟩

/-! ### Nodes and their tokens -/

/-- The tokens of some nodes and of all nodes below them, without those of flags. -/
def carried (nodes : List Node) : List (Option Token) :=
  ((walkAll nodes).filter fun node => !node.isFlags).map token?

/-- Whether some nodes, none of them flags, carry exactly the tokens of a piece of source that a
    tree keeps, in order. -/
structure Carries (tokens : List Token) (nodes : List Node) : Prop where
  content : carried nodes = (tokens.filter (·.IsContent)).map some
  known : ∀ token ∈ tokens, token.kind ≠ .unknown
  plain : ∀ node ∈ nodes, node.isFlags = false
  flagsLead : ∀ node ∈ walkAll nodes, node.FlagsLead

theorem walkAll_append (first rest : List Node) :
    walkAll (first ++ rest) = walkAll first ++ walkAll rest := by
  induction first with
  | nil => rfl
  | cons node first ih => rw [List.cons_append, walkAll, walkAll, ih, List.append_assoc]

theorem walk_eq (node : Node) : node.walk = node :: walkAll node.children := by
  cases node
  rw [walk]

theorem walkAll_singleton (node : Node) : walkAll [node] = node :: walkAll node.children := by
  rw [walkAll, walkAll, List.append_nil, walk_eq]

/-- What is no root itself is below the root of a tree. -/
theorem mem_walkAll_of_mem_walk {root node : Node} (hroot : root.kind = .root)
    (hnode : node ∈ root.walk) (hkind : node.kind ≠ .root) : node ∈ walkAll root.children := by
  rw [walk_eq] at hnode
  rcases List.mem_cons.mp hnode with rfl | hnode
  · exact absurd hroot hkind
  · exact hnode

theorem carried_append (first rest : List Node) :
    carried (first ++ rest) = carried first ++ carried rest := by
  rw [carried, walkAll_append, List.filter_append, List.map_append]
  rfl

/-- Two pieces one behind the other carry their tokens if each does. -/
theorem Carries.append {first rest : List Token} {nodes others : List Node}
    (h : Carries first nodes) (h' : Carries rest others) :
    Carries (first ++ rest) (nodes ++ others) where
  content := by
    rw [carried_append, h.content, h'.content, List.filter_append, List.map_append]
  known token htoken := (List.mem_append.mp htoken).elim (h.known token) (h'.known token)
  plain node hnode := (List.mem_append.mp hnode).elim (h.plain node) (h'.plain node)
  flagsLead node hnode := by
    rw [walkAll_append] at hnode
    exact (List.mem_append.mp hnode).elim (h.flagsLead node) (h'.flagsLead node)

/-- The token of a node is one of those that are carried, unless the node is flags. -/
theorem Carries.mem_tokens {tokens : List Token} {nodes : List Node} {node : Node} {token : Token}
    (h : Carries tokens nodes) (hnode : node ∈ walkAll nodes) (hplain : node.isFlags = false)
    (htoken : node.token? = some token) : token ∈ tokens := by
  have hkept : node ∈ (walkAll nodes).filter fun node => !node.isFlags :=
    List.mem_filter.mpr ⟨hnode, by rw [hplain]; rfl⟩
  have hcarried : some token ∈ carried nodes := List.mem_map.mpr ⟨node, hkept, htoken⟩
  rw [h.content] at hcarried
  obtain ⟨other, hother, hsame⟩ := List.mem_map.mp hcarried
  obtain rfl := Option.some.inj hsame
  exact (List.mem_filter.mp hother).1

/-- Punctuation is carried by no node. -/
theorem carries_punctuation {tokens : List Token}
    (h : ∀ token ∈ tokens, token.kind ∉ [.word, .number, .string, .unknown]) :
    Carries tokens [] where
  content := by
    have hnone : tokens.filter (·.IsContent) = [] := by
      rw [List.filter_eq_nil_iff]
      intro token htoken hcontent
      have hkind : token.kind ∈ [.word, .number, .string] := of_decide_eq_true hcontent
      exact h token htoken (List.mem_append_left [TokenKind.unknown] hkind)
    rw [hnone]
    rfl
  known token htoken hkind := h token htoken (by simp [hkind])
  plain := List.forall_mem_nil _
  flagsLead := List.forall_mem_nil _

/-- A node carries its token in front of those of its operands, whatever flags it has. -/
theorem Carries.node {token : Token} {tokens : List Token} {node : Node} {operands : List Node}
    (flags? : Option Flags) (hcontent : token.IsContent) (hkind : node.isFlags = false)
    (htoken : node.token? = some token) (hlead : node.FlagsLead)
    (hchildren : node.children = (flags?.map (Line.flagsNode · token)).toList ++ operands)
    (h : Carries tokens operands) : Carries (token :: tokens) [node] where
  content := by
    have hflags : carried (flags?.map (Line.flagsNode · token)).toList = [] := by
      cases flags? <;> rfl
    have hcarried : carried [node] = node.token? :: carried node.children := by
      rw [carried, walkAll_singleton, List.filter_cons_of_pos (by rw [hkind]; rfl), List.map_cons]
      rfl
    have hfilter : (token :: tokens).filter (·.IsContent) = token :: tokens.filter (·.IsContent) :=
      List.filter_cons_of_pos (decide_eq_true hcontent)
    rw [hcarried, hchildren, carried_append, hflags, htoken, h.content, hfilter, List.map_cons]
    rfl
  known := by
    refine List.forall_mem_cons.mpr ⟨fun hunknown => ?_, h.known⟩
    rw [Token.IsContent, hunknown] at hcontent
    exact absurd hcontent (by decide)
  plain := List.forall_mem_singleton.mpr hkind
  flagsLead := by
    -- nothing is below flags
    have hflags : ∀ node ∈ walkAll (flags?.map (Line.flagsNode · token)).toList,
        node.FlagsLead := by
      cases flags? with
      | none => exact List.forall_mem_nil _
      | some flags =>
        exact List.forall_mem_singleton.mpr (flagsLead_of_forall (List.forall_mem_nil _))
    rw [walkAll_singleton, hchildren, walkAll_append]
    refine List.forall_mem_cons.mpr ⟨hlead, fun below hbelow => ?_⟩
    exact (List.mem_append.mp hbelow).elim (hflags below) (h.flagsLead below)

theorem carries_nil : Carries [] [] :=
  carries_punctuation (List.forall_mem_nil _)

/-- A node without operands carries its token. -/
theorem carries_leaf {token : Token} {kind : Kind} (hcontent : token.IsContent)
    (hkind : (leaf kind token).isFlags = false) : Carries [token] [leaf kind token] :=
  .node none hcontent hkind rfl (flagsLead_of_forall (List.forall_mem_nil _)) rfl carries_nil

end Node

/-! ### The nodes of a line -/

namespace Grammar

open Node

/-- **The nodes of a line carry its tokens**, since those of every piece of it do. -/
theorem builds_carries : Builds Carries where
  none := carries_nil
  append := Carries.append
  punctuation {token} h := by
    refine carries_punctuation (List.forall_mem_singleton.mpr ?_)
    revert h
    cases token.kind <;> decide
  decimal h := by
    cases h with
    | plain hkind => exact carries_leaf (by simp [Token.IsContent, hkind]) rfl
    | @negative minus _ _ hminus hkind =>
      -- the sign is left out of the node, whose token is that of the digits
      have hgap : Carries [minus] [] :=
        carries_punctuation (List.forall_mem_singleton.mpr (by simp [hminus]))
      exact hgap.append (carries_leaf (by simp [Token.IsContent, hkind]) rfl)
  leaf h := by
    cases h with
    | hex hkind | register hkind | reference hkind | string hkind | definition hkind =>
      exact carries_leaf (by simp [Token.IsContent, hkind]) rfl
  statement h hoperands := by
    cases h with
    | directive hname =>
      exact .node none (by simp [Token.IsContent, hname]) rfl rfl
        (flagsLead_of_forall hoperands.plain) rfl hoperands
    | instruction hword hinstruction =>
      -- the node for flags comes between the word and its operands, and is not content
      exact .node _ (by simp [Token.IsContent, hword]) rfl rfl
        (flagsLead_instruction hinstruction hoperands.plain) rfl hoperands

end Grammar

/-! ### The tree of a source -/

open Grammar

namespace TokenLine

variable {form : Form}

/-- What is kept by everything that lines are put together from holds of lines and their ends. -/
private theorem built_flatMap {lines : List TokenLine}
    (h : ∀ line ∈ lines, Grammar.Line line.body line.nodes) (hform : Builds form) :
    form (lines.flatMap tokens) (lines.flatMap nodes) := by
  induction lines with
  | nil => exact hform.none
  | cons line lines ih =>
    obtain ⟨hhead, hlines⟩ := List.forall_mem_cons.mp h
    have hfirst : form line.tokens (line.nodes ++ []) :=
      hform.append (hhead.built hform) (hform.punctuation line.ends.isPunctuation)
    rw [List.append_nil] at hfirst
    rw [List.flatMap_cons, List.flatMap_cons]
    exact hform.append hfirst (ih hlines)

end TokenLine

/-- What is kept by everything that lines are put together from holds of the tokens of a source that
    can be read and the nodes of its tree. -/
theorem exists_built {form : Form} {source : String} {result : StageResult Node} {root : Node}
    (hparse : parse source = .ok result) (hout : result.outcome = .ok root)
    (hform : Builds form) :
    ∃ nodes, root = .root nodes ∧ form (Lexer.ofSource source).tokens.1 nodes := by
  obtain ⟨hlines, hroot⟩ := lines_of_parse hparse hout
  refine ⟨_, hroot, ?_⟩
  rw [← TokenLine.flatMap_tokens_ofSource]
  exact TokenLine.built_flatMap hlines hform

/-- The tree of a source that can be read carries its tokens. -/
theorem exists_carries {source : String} {result : StageResult Node} {root : Node}
    (hparse : parse source = .ok result) (hout : result.outcome = .ok root) :
    ∃ nodes, root = .root nodes ∧ Node.Carries (Lexer.ofSource source).tokens.1 nodes :=
  exists_built hparse hout builds_carries

/-- Flags are where they belong in the whole tree: its top has none. -/
theorem Node.Carries.flagsLead_root {tokens : List Token} {nodes : List Node}
    (h : Carries tokens nodes) : ∀ node ∈ (Node.root nodes).walk, node.FlagsLead := by
  rw [Node.root, Node.walk]
  exact List.forall_mem_cons.mpr ⟨Node.flagsLead_of_forall h.plain, h.flagsLead⟩

/-- **No token is lost.** The tree of a source that can be read carries exactly the words, numbers
    and strings of the source, each once and in order, and the source has no unknown character. Only
    the flags of a branch carry something else, and they are its first child: the part of its word
    behind the first two bytes, two bytes further along. -/
theorem parse_carries {source : String} {result : StageResult Node} {root : Node}
    (hparse : parse source = .ok result) (hout : result.outcome = .ok root) :
    ∃ nodes, root = .root nodes ∧
      ((Node.walkAll nodes).filter fun node => !node.isFlags).map Node.token? =
        ((Lexer.ofSource source).tokens.1.filter (·.IsContent)).map some ∧
      (∀ token ∈ (Lexer.ofSource source).tokens.1, token.kind ≠ .unknown) ∧
      ∀ node ∈ root.walk, node.FlagsLead := by
  obtain ⟨nodes, rfl, hcarries⟩ := exists_carries hparse hout
  exact ⟨nodes, rfl, hcarries.content, hcarries.known, hcarries.flagsLead_root⟩

/-- The tree of a labelled branch and a directive carries their words and numbers, not the flags. -/
theorem parse_carries_branch :
    let source := "LOOP: BRnz LOOP ; back\n.fill #-1"
    ∃ result root nodes, parse source = .ok result ∧ result.outcome = .ok root ∧
      root = .root nodes ∧
      (((Node.walkAll nodes).filter fun node => !node.isFlags).map Node.token?).map
        (·.map Token.text) =
          [some "LOOP", some "BRnz", some "LOOP", some "fill", some "1"] := by
  intro source
  have herrors : (parse source).map StageResult.errors = .ok 0 := by decide +kernel
  obtain ⟨result, hparse, hnone⟩ := map_eq_ok_iff.mp herrors
  have hout : result.outcome = .ok result.product :=
    StageResult.outcome_eq_ok_iff.mpr ⟨hnone, rfl⟩
  obtain ⟨nodes, hroot, hcontent, -⟩ := parse_carries hparse hout
  refine ⟨result, result.product, nodes, hparse, hout, hroot, ?_⟩
  rw [hcontent]
  decide +kernel

end LC3
