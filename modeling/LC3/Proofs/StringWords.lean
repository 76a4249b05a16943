import LC3.Proofs.Layout

namespace LC3

/-!
# The words of strings

A string literal is emitted as one word for each of its characters, and a zero. A word has room for
the last 16 bits of a character only. So the words tell the string unless it has characters with
more bits, of which one may be taken for another.

* `Token.characters` — the string that a literal stands for.
* `Text.narrowed` — what is left of a string in words.
* `Grammar.Line.placesStrings` — the literals of a line are the strings below its nodes.
* `SameButString` — sources that differ in one string literal.
* `Assembly.strings_narrowed` — which words are emitted for strings, and what they tell.
-/

/-- The characters that a string literal stands for. -/
def Token.characters (literal : Token) : List Char :=
  Text.unescape literal.text.toList

/-- What is left of the numbers of some characters in words. -/
def Text.narrowed (text : List Char) : List Nat :=
  text.map fun c => c.toNat % Word.count

/-- Two sources that differ in one string literal: in front of it and behind it they have the same
    tokens but for places. -/
structure SameButString (source source' : String) (literal literal' : Token) : Prop where
  kind : literal.kind = .string
  kind' : literal'.kind = .string
  tokens : ∃ before after before' after',
    (Lexer.ofSource source).tokens.1 = before ++ literal :: after ∧
    (Lexer.ofSource source').tokens.1 = before' ++ literal' :: after' ∧
    List.Forall₂ Token.Same before before' ∧ List.Forall₂ Token.Same after after'

/-! ### Narrow words -/

namespace Text

/-- The words of a string are its characters as far as they have room, and a zero. -/
theorem map_toNat_stringWords (text : List Char) :
    (stringWords (.ofList text)).map BitVec.toNat = narrowed text ++ [0] := by
  simp [stringWords, narrowed, Word.count, Function.comp_def]

/-- Nothing is lost exactly if every character has room in a word. -/
theorem narrowed_eq_map_toNat_iff {text : List Char} :
    narrowed text = text.map Char.toNat ↔ ∀ c ∈ text, c.toNat < Word.count := by
  rw [narrowed, List.map_inj_left]
  exact forall₂_congr fun c _ => Nat.mod_eq_iff_lt (by decide)

/-- Strings whose characters have room in words can be told apart. -/
theorem eq_of_narrowed_eq {text text' : List Char} (h : narrowed text = narrowed text')
    (hroom : ∀ c ∈ text, c.toNat < Word.count) (hroom' : ∀ c ∈ text', c.toNat < Word.count) :
    text = text' := by
  rw [narrowed_eq_map_toNat_iff.mpr hroom, narrowed_eq_map_toNat_iff.mpr hroom'] at h
  exact List.map_injective_iff.mpr (fun c d hcd => Char.toNat_inj.mp hcd) h

/-- Words of a string tell what is left of it. -/
theorem narrowed_eq_of_stringWords_eq {text text' : List Char}
    (h : stringWords (.ofList text) = stringWords (.ofList text')) :
    narrowed text = narrowed text' := by
  have hnumbers := congrArg (List.map BitVec.toNat) h
  rw [map_toNat_stringWords, map_toNat_stringWords] at hnumbers
  exact List.append_cancel_right hnumbers

end Text

/-! ### The strings of a line -/

/-- The operand that a string literal becomes. -/
def Node.ofString (literal : Token) : Node :=
  .leaf (.string (.ofList literal.characters)) literal

namespace Grammar

open Node

/-- Whether there is no literal among some tokens and no string among their nodes. -/
structure Stringless (tokens : List Token) (nodes : List Node) : Prop where
  tokens : ∀ token ∈ tokens, token.kind ≠ .string
  nodes : ∀ node ∈ nodes, ∀ text, node.kind ≠ .string text

/-- Whether the strings among some operands are those of the literals among their tokens. -/
structure KeepsStrings (tokens : List Token) (operands : List Node) : Prop where
  kept : ∀ literal ∈ tokens, literal.kind = .string → ofString literal ∈ operands
  literals : ∀ operand ∈ operands, ∀ text, operand.kind = .string text →
    ∃ literal ∈ tokens, literal.kind = .string ∧ operand = ofString literal

variable {tokens front : List Token} {nodes operands labels : List Node}

/-- What has no strings is put together of what has none. -/
theorem composes_stringless : Composes Stringless where
  none := ⟨List.forall_mem_nil _, List.forall_mem_nil _⟩
  append h h' := ⟨List.forall_mem_append.mpr ⟨h.tokens, h'.tokens⟩,
    List.forall_mem_append.mpr ⟨h.nodes, h'.nodes⟩⟩

/-- Strings are kept if they are in each part. -/
theorem composes_keepsStrings : Composes KeepsStrings where
  none := ⟨List.forall_mem_nil _, List.forall_mem_nil _⟩
  append h h' := by
    constructor
    · intro literal hliteral hkind
      exact List.mem_append.mpr ((List.mem_append.mp hliteral).imp
        (fun hmem => h.kept literal hmem hkind) fun hmem => h'.kept literal hmem hkind)
    · intro operand hoperand text htext
      rcases List.mem_append.mp hoperand with hmem | hmem
      · obtain ⟨literal, hliteral, hstring⟩ := h.literals operand hmem text htext
        exact ⟨literal, List.mem_append_left _ hliteral, hstring⟩
      · obtain ⟨literal, hliteral, hstring⟩ := h'.literals operand hmem text htext
        exact ⟨literal, List.mem_append_right _ hliteral, hstring⟩

theorem Stringless.keepsStrings (h : Stringless tokens nodes) : KeepsStrings tokens nodes where
  kept literal hliteral hkind := absurd hkind (h.tokens literal hliteral)
  literals node hnode text htext := absurd htext (h.nodes node hnode text)

theorem stringless_none (h : ∀ token ∈ tokens, token.kind ≠ .string) : Stringless tokens [] :=
  ⟨h, List.forall_mem_nil _⟩

theorem stringless_leaf {token : Token} {kind : Kind} (htoken : token.kind ≠ .string)
    (hkind : ∀ text, kind ≠ .string text) : Stringless [token] [leaf kind token] :=
  ⟨List.forall_mem_singleton.mpr htoken, List.forall_mem_singleton.mpr hkind⟩

/-- A token that may be there is no string if its kind is none. -/
theorem Optional.stringless {kind : TokenKind} (h : Optional kind tokens) (hkind : kind ≠ .string) :
    Stringless tokens [] := by
  cases h with
  | none => exact composes_stringless.none
  | some h => exact stringless_none (List.forall_mem_singleton.mpr (by rwa [h]))

/-- Numbers have no strings. -/
theorem Number.stringless (h : Number tokens nodes) : Stringless tokens nodes := by
  cases h with
  | hex hkind => exact stringless_leaf (by simp [hkind]) nofun
  | decimal hpound hdecimal =>
    refine composes_stringless.append (hpound.stringless (by decide)) ?_
    cases hdecimal with
    | plain hkind => exact stringless_leaf (by simp [hkind]) nofun
    | negative hminus hkind =>
      have hgap : Stringless [_] [] := Optional.stringless (.some hminus) (by decide)
      exact composes_stringless.append hgap (stringless_leaf (by simp [hkind]) nofun)

/-- Operands of instructions have no strings. -/
theorem InstructionOperand.stringless (h : InstructionOperand tokens nodes) :
    Stringless tokens nodes := by
  cases h with
  | number h => exact h.stringless
  | register hkind | label hkind => exact stringless_leaf (by simp [hkind]) (by simp)

/-- Operands of directives keep their strings. -/
theorem DirectiveOperand.keepsStrings (h : DirectiveOperand tokens nodes) :
    KeepsStrings tokens nodes := by
  cases h with
  | number h => exact h.stringless.keepsStrings
  | label hkind => exact (stringless_leaf (by simp [hkind]) (by simp)).keepsStrings
  | @string token hkind =>
    have hself : ∀ {α : Type} (a : α), a ∈ [a] := fun a => List.mem_singleton_self a
    exact ⟨List.forall_mem_singleton.mpr fun _ => hself _,
      List.forall_mem_singleton.mpr fun _ _ => ⟨token, hself _, hkind, rfl⟩⟩

/-- Whether the strings below the nodes of a line are those of the literals among its tokens. They
    are operands of a directive, in front of which there are only labels. -/
structure PlacesStrings (tokens : List Token) (nodes : List Node) : Prop where
  kept : ∀ literal ∈ tokens, literal.kind = .string → ∃ labels directive name operands,
    nodes = labels ++ [⟨.directive directive, some name, operands⟩] ∧
      (∀ label ∈ labels, label.kind = .labelDefinition) ∧ ofString literal ∈ operands
  literals : ∀ node ∈ nodes, ∀ operand ∈ node.children, ∀ text, operand.kind = .string text →
    ∃ literal ∈ tokens, literal.kind = .string ∧ operand = ofString literal

/-- Strings are operands of directives only. -/
theorem Statement.placesStrings (h : Statement tokens nodes) : PlacesStrings tokens nodes := by
  cases h with
  | empty => exact ⟨List.forall_mem_nil _, List.forall_mem_nil _⟩
  | @directive period name directive tokens operands hperiod hname _ hoperands =>
    have hkeeps : KeepsStrings tokens operands := hoperands.composed composes_keepsStrings
      (fun _ _ h => h.keepsStrings) fun _ h => (h.stringless (by decide)).keepsStrings
    have hgap : Stringless [period, name] [] := stringless_none (by simp [hperiod, hname])
    -- the period and the name are no literals
    have hall : KeepsStrings (period :: name :: tokens) operands :=
      composes_keepsStrings.append hgap.keepsStrings hkeeps
    refine ⟨fun literal hliteral hkind => ?_, List.forall_mem_singleton.mpr hall.literals⟩
    exact ⟨[], directive, name, operands, rfl, List.forall_mem_nil _,
      hall.kept literal hliteral hkind⟩
  | @instruction word mnemonic flags? tokens operands hword _ hoperands =>
    -- operands of instructions are no literals, and neither are the commas between them
    have hnone : Stringless tokens operands := hoperands.composed composes_stringless
      (fun _ _ h => h.stringless) fun _ ⟨hcomma⟩ => stringless_none (by simp [hcomma])
    -- nor is the word, with flags or without
    have hflags : Stringless [word] (flags?.map (Line.flagsNode · word)).toList := by
      have hword' : word.kind ≠ .string := by simp [hword]
      cases flags? with
      | none => exact stringless_none (List.forall_mem_singleton.mpr hword')
      | some flags =>
        exact ⟨List.forall_mem_singleton.mpr hword', List.forall_mem_singleton.mpr nofun⟩
    have hall : Stringless (word :: tokens) _ := composes_stringless.append hflags hnone
    exact ⟨fun literal hliteral hkind => absurd hkind (hall.tokens literal hliteral),
      List.forall_mem_singleton.mpr hall.keepsStrings.literals⟩

/-- A label in front of a statement has nothing to do with its strings. -/
theorem PlacesStrings.labelled {word : Token} (h : PlacesStrings tokens nodes)
    (hfront : ∀ token ∈ front, token.kind ≠ .string) :
    PlacesStrings (front ++ tokens) (leaf .labelDefinition word :: nodes) where
  kept literal hliteral hkind := by
    have hmem : literal ∈ tokens :=
      (List.mem_append.mp hliteral).resolve_left fun hmem => hfront literal hmem hkind
    obtain ⟨labels, directive, name, operands, rfl, hlabels, hoperand⟩ :=
      h.kept literal hmem hkind
    exact ⟨leaf .labelDefinition word :: labels, directive, name, operands, rfl,
      List.forall_mem_cons.mpr ⟨rfl, hlabels⟩, hoperand⟩
  literals := by
    intro node hnode operand hoperand text htext
    rcases List.mem_cons.mp hnode with rfl | hnode
    · cases hoperand
    · obtain ⟨literal, hliteral, hstring⟩ := h.literals node hnode operand hoperand text htext
      exact ⟨literal, List.mem_append_right _ hliteral, hstring⟩

/-- **The literals of a line are the strings below its nodes.** -/
theorem Line.placesStrings (h : Line tokens nodes) : PlacesStrings tokens nodes := by
  cases h with
  | unlabelled _ hstatement => exact hstatement.placesStrings
  | @labelled word _ _ hlabel _ hstatement =>
    exact hstatement.placesStrings.labelled (List.forall_mem_singleton.mpr (by simp [hlabel.1]))
  | @labelledColon word colon _ _ hlabel hcolon hstatement =>
    have hfront : ∀ token ∈ [word, colon], token.kind ≠ .string := by simp [hlabel.1, hcolon]
    exact hstatement.placesStrings.labelled hfront

end Grammar

/-! ### What is emitted -/

/-- A string is no operand of any other format than that of strings. -/
theorem Format.eq_string_of_fits {format : Format} {nodes : List Node} {operand : Node}
    {text : String} (h : format.fits nodes) (hoperand : operand ∈ nodes)
    (hkind : operand.kind = .string text) : format = .string := by
  have hall := Format.fits_iff_forall₂.mp h
  obtain ⟨allowed, hallowed, haccepts⟩ := exists_mem_of_forall₂ hall hoperand
  rw [hkind] at haccepts
  -- of the kinds of operands, only one accepts a string
  obtain rfl : allowed = .string := by
    cases allowed with
    | string => rfl
    | _ => cases haccepts
  cases format with
  | string => rfl
  | _ => exact absurd hallowed (by decide)

namespace Node

variable {node operand : Node} {directive : Directive} {counter : Counter}
  {symbols : SymbolTable} {words : List Word}

/-- A directive with the operand of strings emits the words of its string. -/
theorem emitDirective_string (h : node.emitDirective .stringz symbols = .ok words) :
    ∃ operand text, node.children = [operand] ∧ operand.kind = .string text ∧
      words = stringWords text := by
  obtain ⟨format, hformat, operands, hread, h⟩ := exists_operands_of_emitDirective h
  obtain rfl : format = .string := by simpa [Directive.formats] using hformat
  obtain ⟨operand, text, hchildren, htext, rfl⟩ := read?_string_eq_some_iff.mp hread
  cases h
  exact ⟨operand, text, hchildren, kind_of_string? htext, rfl⟩

/-- Only one directive takes a string, and emits its words. -/
theorem emit_of_mem_string {text : String} (hkind : node.kind = .directive directive)
    (h : node.emit counter symbols = .ok words) (hoperand : operand ∈ node.children)
    (htext : operand.kind = .string text) : words = stringWords text := by
  simp only [emit, hkind] at h
  obtain ⟨format, hformat, operands, hread, -⟩ := exists_operands_of_emitDirective h
  have hfits : format.fits node.children := by
    rw [← Format.isSome_read?, hread]
    rfl
  -- the format tells the directive
  obtain rfl := Format.eq_string_of_fits hfits hoperand htext
  obtain rfl : directive = .stringz := by
    revert hformat
    cases directive <;> simp [Directive.formats]
  obtain ⟨operand', text', hchildren, htext', rfl⟩ := emitDirective_string h
  rw [hchildren, List.mem_singleton] at hoperand
  subst hoperand
  rw [htext] at htext'
  cases htext'
  rfl

end Node

/-! ### Lines around a literal -/

namespace TokenLine

open Grammar

/-- Whether lines are the same but for places and for one line, which has one token where the other
    has another. -/
inductive DifferAt (token token' : Token) : List TokenLine → List TokenLine → Prop where
  | here {line line' : TokenLine} {back back' : List TokenLine} (hmem : token ∈ line.body)
    (hmem' : token' ∈ line'.body) (hback : List.Forall₂ (Pairs Token.Same) back back') :
    DifferAt token token' (line :: back) (line' :: back')
  | behind {first first' : TokenLine} {rest rest' : List TokenLine}
    (hfirst : Pairs Token.Same first first') (hrest : DifferAt token token' rest rest') :
    DifferAt token token' (first :: rest) (first' :: rest')

variable {token token' : Token} {before before' after after' tokens : List Token}
  {lines others : List TokenLine}

/-- There are lines in front of the one that differs, and behind it. -/
theorem DifferAt.exists_append (h : DifferAt token token' lines others) :
    ∃ front line back front' line' back', lines = front ++ line :: back ∧
      others = front' ++ line' :: back' ∧ token ∈ line.body ∧ token' ∈ line'.body ∧
      List.Forall₂ (Pairs Token.Same) front front' ∧
      List.Forall₂ (Pairs Token.Same) back back' := by
  induction h with
  | here hmem hmem' hback => exact ⟨[], _, _, [], _, _, rfl, rfl, hmem, hmem', .nil, hback⟩
  | @behind first first' _ _ hfirst _ ih =>
    obtain ⟨front, line, back, front', line', back', rfl, rfl, hmem, hmem', hfront, hback⟩ := ih
    exact ⟨first :: front, line, back, first' :: front', line', back', rfl, rfl, hmem, hmem',
      .cons hfirst hfront, hback⟩

/-- Where a token ends a line there is one. -/
theorem split_ne_nil {last : Token} (hlast : last ∈ tokens) (hends : EndsLine last) :
    split tokens ≠ [] := by
  induction tokens with
  | nil => cases hlast
  | cons token tokens ih =>
    rw [split]
    by_cases htoken : EndsLine token
    · rw [dif_pos htoken]
      exact List.cons_ne_nil _ _
    · -- the line of the token is behind it, or is joined by it
      rw [dif_neg htoken]
      have hmem : last ∈ tokens := by
        rcases List.mem_cons.mp hlast with rfl | hmem
        · exact absurd hends htoken
        · exact hmem
      obtain ⟨line, lines, hsplit⟩ := List.exists_cons_of_ne_nil (ih hmem)
      rw [hsplit]
      exact List.cons_ne_nil _ _

/-- Behind a token of a source that ends no line there is the end of its line. -/
theorem split_behind_ne_nil {source : String}
    (htokens : (Lexer.ofSource source).tokens.1 = before ++ token :: after)
    (hinside : ¬ EndsLine token) : split after ≠ [] := by
  obtain ⟨body, last, hbody, hlast, -, -⟩ := Lexer.exists_tokens_ofSource source
  have hends : EndsLine last := .inr hlast
  have hsame : body ++ [last] = before ++ token :: after := hbody.symm.trans htokens
  have hmem : last ∈ token :: after := by
    have hgetLast := congrArg List.getLast? hsame
    rw [List.getLast?_concat, List.getLast?_append_cons] at hgetLast
    exact List.mem_of_getLast? hgetLast.symm
  rcases List.mem_cons.mp hmem with rfl | hmem
  · exact absurd hends hinside
  · exact split_ne_nil hmem hends

/-- **Tokens that are the same but for one** fall into lines that are the same but for one. -/
theorem differAt_split (hinside : ¬ EndsLine token) (hinside' : ¬ EndsLine token')
    (hbefore : List.Forall₂ Token.Same before before')
    (hafter : List.Forall₂ Token.Same after after') (hends : split after ≠ []) :
    DifferAt token token' (split (before ++ token :: after))
      (split (before' ++ token' :: after')) := by
  induction hbefore with
  | nil =>
    -- the two tokens join the line behind them, which is the one that differs
    have hlines := forall₂_split hafter fun _ _ hsame => hsame.kind
    rw [List.nil_append, List.nil_append, split, split, dif_neg hinside, dif_neg hinside']
    generalize split after = lines at hends hlines
    generalize split after' = others at hlines
    cases hlines with
    | nil => exact absurd rfl hends
    | cons _ hback => exact .here List.mem_cons_self List.mem_cons_self hback
  | @cons first first' _ _ hfirst _ ih =>
    have hsame : EndsLine first' ↔ EndsLine first := by rw [EndsLine, EndsLine, hfirst.kind]
    rw [List.cons_append, List.cons_append]
    by_cases hfirst' : EndsLine first
    · -- a line of its own in front of the others
      rw [split, split, dif_pos hfirst', dif_pos (hsame.mpr hfirst')]
      exact .behind ⟨.nil, hfirst⟩ ih
    · rw [split, split, dif_neg hfirst', dif_neg (hsame.not.mpr hfirst')]
      -- the token joins the first line behind it, which may be the one that differs
      generalize split _ = lines at ih
      generalize split _ = others at ih
      cases ih with
      | here hmem hmem' hback =>
        exact .here (List.mem_cons_of_mem _ hmem) (List.mem_cons_of_mem _ hmem') hback
      | behind hline hrest => exact .behind ⟨.cons hfirst hline.body, hline.ending⟩ hrest

/-- Lines with the same tokens emit as much. -/
theorem map_emitted_of_pairs (h : List.Forall₂ (Pairs Token.Same) lines others) :
    (others.flatMap nodes).map Node.emitted = (lines.flatMap nodes).map Node.emitted := by
  have hnodes := List.rel_flatMap h fun _ _ hpair => hpair.forall₂_nodes
  rw [← List.forall₂_eq_eq_eq, List.forall₂_map_left_iff, List.forall₂_map_right_iff]
  exact hnodes.flip.imp fun _ _ hnode =>
    Node.emitted_congr hnode.kind_eq (Node.map_kind_of_alike hnode.children)

end TokenLine

/-! ### Sources -/

namespace Assembly

variable {source : String} {tree root : Node} {symbols : SymbolTable} {image : Image}
  {literal : Token}

/-- Every string that is emitted is that of a literal of the source. -/
theorem Stages.exists_literal (h : Stages source tree root symbols image)
    {entry : Listing.Entry} (hentry : entry ∈ Node.listing symbols .start root.children)
    (hkind : entry.node.kind = .directive .stringz) :
    ∃ literal ∈ (Lexer.ofSource source).tokens.1, literal.kind = .string ∧
      entry.node.children = [Node.ofString literal] ∧
      entry.words = stringWords (.ofList literal.characters) := by
  obtain ⟨result, hparse, hout⟩ := h.parsed
  obtain ⟨hlines, rfl⟩ := lines_of_parse hparse hout
  have hemit := (words_eq_flatMap_listing h).2 entry hentry
  simp only [Node.emit, hkind] at hemit
  obtain ⟨operand, text, hchildren, htext, hwords⟩ := Node.emitDirective_string hemit
  -- the node comes from a line, and its string from a literal there
  have hnode : entry.node ∈ root.children := Node.mem_of_mem_listing hentry
  rw [Node.children_of_analyze h.analyzed] at hnode
  obtain ⟨node, hnode, hrecorded⟩ := List.mem_map.mp hnode
  obtain ⟨line, hline, hnode⟩ := List.mem_flatMap.mp hnode
  have hoperand : operand ∈ node.children := by
    rw [← Node.children_recordFormat, hrecorded, hchildren]
    exact List.mem_singleton_self _
  obtain ⟨literal, hliteral, hstring, rfl⟩ :=
    (hlines line hline).placesStrings.literals node hnode operand hoperand text htext
  cases htext
  refine ⟨literal, ?_, hstring, hchildren, hwords⟩
  rw [← TokenLine.flatMap_tokens_ofSource]
  exact List.mem_flatMap.mpr ⟨line, hline, List.mem_append_left _ hliteral⟩

/-- The words of a statement stand between those of the statements around it, which emit as many as
    they say. -/
theorem Stages.exists_words_append (h : Stages source tree root symbols image)
    {before after : List Node} {node : Node} (hchildren : root.children = before ++ node :: after) :
    ∃ first words last counter, image.words = first ++ (words ++ last) ∧
      node.emit counter symbols = .ok words ∧
      first.length = (before.map Node.emitted).sum ∧
      last.length = (after.map Node.emitted).sum := by
  obtain ⟨hwords, hentries⟩ := words_eq_flatMap_listing h
  rw [← Node.map_node_listing symbols .start root.children] at hchildren
  obtain ⟨front, rest, hlisting, rfl, hrest⟩ := List.map_eq_append_iff.mp hchildren
  obtain ⟨entry, back, rfl, rfl, rfl⟩ := List.map_eq_cons_iff.mp hrest
  rw [hlisting] at hwords hentries
  obtain ⟨hfront, hrest⟩ := List.forall_mem_append.mp hentries
  obtain ⟨hentry, hback⟩ := List.forall_mem_cons.mp hrest
  rw [List.flatMap_append, List.flatMap_cons] at hwords
  exact ⟨_, _, _, _, hwords, hentry, Node.length_flatMap_words hfront,
    Node.length_flatMap_words hback⟩

/-- The words of a literal stand between those of the lines around its line. -/
theorem Stages.exists_words_around (h : Stages source tree root symbols image)
    {front back : List TokenLine} {line : TokenLine}
    (hsplit : TokenLine.ofSource source = front ++ line :: back) (hliteral : literal ∈ line.body)
    (hkind : literal.kind = .string) :
    ∃ first last, image.words = first ++ (stringWords (.ofList literal.characters) ++ last) ∧
      first.length = ((front.flatMap TokenLine.nodes).map Node.emitted).sum ∧
      last.length = ((back.flatMap TokenLine.nodes).map Node.emitted).sum := by
  obtain ⟨result, hparse, hout⟩ := h.parsed
  obtain ⟨hlines, rfl⟩ := lines_of_parse hparse hout
  have hline : line ∈ TokenLine.ofSource source := by simp [hsplit]
  -- the line has labels, which emit nothing, and the directive with the string
  obtain ⟨labels, directive, name, operands, hnodes, hlabels, hoperand⟩ :=
    (hlines line hline).placesStrings.kept literal hliteral hkind
  have hnone : (labels.map Node.emitted).sum = 0 := by
    have hzero : ∀ label ∈ labels, label.emitted = 0 := fun label hlabel => by
      simp [Node.emitted, hlabels label hlabel]
    rw [List.map_congr_left hzero]
    simp
  have hchildren : root.children =
      (front.flatMap TokenLine.nodes ++ labels).map Node.recordFormat ++
        ⟨.directive directive, some name, operands⟩ ::
          (back.flatMap TokenLine.nodes).map Node.recordFormat := by
    rw [Node.children_of_analyze h.analyzed, hsplit]
    simp [Node.root, hnodes, Node.recordFormat]
  obtain ⟨first, words, last, counter, hwords, hemit, hfirst, hlast⟩ :=
    h.exists_words_append hchildren
  obtain rfl := Node.emit_of_mem_string rfl hemit hoperand rfl
  refine ⟨first, last, hwords, ?_, ?_⟩
  · rw [hfirst, List.map_map]
    simp [Function.comp_def, hnone]
  · rw [hlast, List.map_map]
    simp [Function.comp_def]

/-- In two sources that differ in one string literal and have the same words, as much is left of the
    two strings. -/
theorem narrowed_eq_of_sameButString {source' : String} {tree' root' : Node}
    {symbols' : SymbolTable} {literal' : Token} (h : Stages source tree root symbols image)
    (h' : Stages source' tree' root' symbols' image)
    (hsame : SameButString source source' literal literal') :
    Text.narrowed literal.characters = Text.narrowed literal'.characters := by
  obtain ⟨before, after, before', after', htokens, htokens', hbefore, hafter⟩ := hsame.tokens
  have hinside := Grammar.not_endsLine_of_kind hsame.kind (by decide)
  have hinside' := Grammar.not_endsLine_of_kind hsame.kind' (by decide)
  have hlines : TokenLine.DifferAt literal literal' (TokenLine.ofSource source)
      (TokenLine.ofSource source') := by
    rw [TokenLine.ofSource, TokenLine.ofSource, htokens, htokens']
    exact TokenLine.differAt_split hinside hinside' hbefore hafter
      (TokenLine.split_behind_ne_nil htokens hinside)
  obtain ⟨front, line, back, front', line', back', hsplit, hsplit', hmem, hmem', hfront, hback⟩ :=
    hlines.exists_append
  obtain ⟨first, last, hwords, hfirst, hlast⟩ := h.exists_words_around hsplit hmem hsame.kind
  obtain ⟨first', last', hwords', hfirst', hlast'⟩ :=
    h'.exists_words_around hsplit' hmem' hsame.kind'
  -- the lines around have as many words in both sources
  rw [TokenLine.map_emitted_of_pairs hfront, ← hfirst] at hfirst'
  rw [TokenLine.map_emitted_of_pairs hback, ← hlast] at hlast'
  -- what is in front of the strings and behind them has the same length
  have hrest := List.append_inj_right (hwords.symm.trans hwords') hfirst'.symm
  exact Text.narrowed_eq_of_stringWords_eq (List.append_inj_left' hrest hlast'.symm)

/-- **What the words of strings tell.** A source that assembles emits for each string what is
    left of the characters of a literal, one word for each, and a zero. These are the numbers of the
    characters exactly if each of them has room in a word. Another source that differs in one
    literal only has the same words only if as much is left of its string, and so only if it is the
    same string, as far as the characters of both have room in words. -/
theorem strings_narrowed {diagnostics : Diagnostics} {assembly : Assembly}
    (h : assemble source diagnostics = .ok assembly) (himage : assembly.outcome = .ok image) :
    (∃ tree root symbols, Stages source tree root symbols image ∧
      image.words = (Node.listing symbols .start root.children).flatMap Listing.Entry.words ∧
      ∀ entry ∈ Node.listing symbols .start root.children,
        entry.node.kind = .directive .stringz →
        ∃ literal ∈ (Lexer.ofSource source).tokens.1, literal.kind = .string ∧
          entry.node.children = [Node.ofString literal] ∧
          entry.words.map BitVec.toNat = Text.narrowed literal.characters ++ [0] ∧
          (entry.words.map BitVec.toNat = literal.characters.map Char.toNat ++ [0] ↔
            ∀ c ∈ literal.characters, c.toNat < Word.count)) ∧
    ∀ source' diagnostics' assembly' literal literal',
      assemble source' diagnostics' = .ok assembly' → assembly'.outcome = .ok image →
      SameButString source source' literal literal' →
      Text.narrowed literal.characters = Text.narrowed literal'.characters ∧
        ((∀ c ∈ literal.characters, c.toNat < Word.count) →
          (∀ c ∈ literal'.characters, c.toNat < Word.count) →
          literal.characters = literal'.characters) := by
  obtain ⟨tree, root, symbols, hstages⟩ := exists_stages h himage
  constructor
  · -- the first part: the words are those of the literal, narrowed one by one
    refine ⟨tree, root, symbols, hstages, (words_eq_flatMap_listing hstages).1, ?_⟩
    intro entry hentry hkind
    obtain ⟨literal, hliteral, hstring, hchildren, hwords⟩ := hstages.exists_literal hentry hkind
    have hnumbers : entry.words.map BitVec.toNat = Text.narrowed literal.characters ++ [0] := by
      rw [hwords, Text.map_toNat_stringWords]
    refine ⟨literal, hliteral, hstring, hchildren, hnumbers, ?_⟩
    rw [hnumbers, List.append_cancel_right_eq, Text.narrowed_eq_map_toNat_iff]
  · -- the second part: the literals have the same words
    intro source' diagnostics' assembly' literal literal' h' himage' hsame
    obtain ⟨tree', root', symbols', hstages'⟩ := exists_stages h' himage'
    have hnarrowed := narrowed_eq_of_sameButString hstages hstages' hsame
    exact ⟨hnarrowed, Text.eq_of_narrowed_eq hnarrowed⟩

/-- Two sources can be compared token by token around a place. -/
private theorem sameButString_of_place {source source' : String} {literal literal' : Token}
    (place : Nat) (hkind : literal.kind = .string) (hkind' : literal'.kind = .string)
    (h : let tokens := (Lexer.ofSource source).tokens.1
      let tokens' := (Lexer.ofSource source').tokens.1
      tokens = tokens.take place ++ literal :: tokens.drop (place + 1) ∧
        tokens' = tokens'.take place ++ literal' :: tokens'.drop (place + 1) ∧
        List.Forall₂ Token.Same (tokens.take place) (tokens'.take place) ∧
        List.Forall₂ Token.Same (tokens.drop (place + 1)) (tokens'.drop (place + 1))) :
    SameButString source source' literal literal' :=
  ⟨hkind, hkind', _, _, _, _, h⟩

/-- Two sources that have the same words: a character of the second is what is left of one of the
    first. -/
theorem strings_narrowed_emoji :
    let source := ".orig x3000\n.stringz \"a😀\"\n.end"
    let source' := ".orig x3000\n.stringz \"a\uF600\"\n.end"
    let literal : Token := ⟨.string, "a😀", ⟨2, 9, 21⟩⟩
    let literal' : Token := ⟨.string, "a\uF600", ⟨2, 9, 21⟩⟩
    let image : Image := ⟨[0x3000#16, 0x61#16, 0xF600#16, 0#16]⟩
    (assemble source .empty).map Assembly.outcome = .ok (.ok image) ∧
      (assemble source' .empty).map Assembly.outcome = .ok (.ok image) ∧
      SameButString source source' literal literal' ∧
      Text.narrowed literal.characters = Text.narrowed literal'.characters := by
  intro source source' literal literal' image
  have hrun : (assemble source .empty).map Assembly.outcome = .ok (.ok image) := by decide +kernel
  have hrun' : (assemble source' .empty).map Assembly.outcome = .ok (.ok image) := by
    decide +kernel
  have hsame : SameButString source source' literal literal' :=
    sameButString_of_place 6 rfl rfl (by decide +kernel)
  obtain ⟨assembly, h, himage⟩ := map_eq_ok_iff.mp hrun
  obtain ⟨assembly', h', himage'⟩ := map_eq_ok_iff.mp hrun'
  have hnarrowed := (strings_narrowed h himage).2 source' .empty assembly' literal literal' h'
    himage' hsame
  exact ⟨hrun, hrun', hsame, hnarrowed.1⟩

/-- A string that is emitted as another one. -/
theorem emoji_aside :
    let source := ".orig x3000\n.stringz \"😀\"\n.end"
    let source' := ".orig x3000\n.stringz \"\uF600\"\n.end"
    let literal : Token := ⟨.string, "😀", ⟨2, 9, 21⟩⟩
    let literal' : Token := ⟨.string, "\uF600", ⟨2, 9, 21⟩⟩
    let image : Image := ⟨[0x3000#16, 0xF600#16, 0#16]⟩
    (assemble source .empty).map Assembly.outcome = .ok (.ok image) ∧
      (assemble source' .empty).map Assembly.outcome = .ok (.ok image) ∧
      SameButString source source' literal literal' ∧
      literal.characters ≠ literal'.characters ∧
      ∃ symbols root, stagesOf? source = some (symbols, root) ∧
        ∃ entry ∈ Node.listing symbols .start root.children,
          entry.node.kind = .directive .stringz ∧
          entry.node.children.map Node.token? = [some literal] ∧
          entry.words.map BitVec.toNat ≠ literal.characters.map Char.toNat ++ [0] := by
  intro source source' literal literal' image
  have hsame : SameButString source source' literal literal' :=
    sameButString_of_place 6 rfl rfl (by decide +kernel)
  -- the entry of the string is found in the listing
  have hfound : (stagesOf? source).map (fun (symbols, root) =>
      decide (∃ entry ∈ Node.listing symbols .start root.children,
        entry.node.kind = .directive .stringz ∧
        entry.node.children.map Node.token? = [some literal] ∧
        entry.words.map BitVec.toNat ≠ literal.characters.map Char.toNat ++ [0])) = some true := by
    decide +kernel
  obtain ⟨⟨symbols, root⟩, hstages, hentry⟩ := Option.map_eq_some_iff.mp hfound
  exact ⟨by decide +kernel, by decide +kernel, hsame, by decide +kernel, symbols, root, hstages,
    of_decide_eq_true hentry⟩

end Assembly

end LC3
