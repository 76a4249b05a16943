import LC3.Proofs.Document
import LC3.Proofs.TreeTokens

namespace LC3

/-!
# Sources below others

A source that starts at the beginning of a line further down is split and read like one that stands
alone. Everything that comes of it only lies as much further down.

* `Depth` — how far down a source starts.
* `Lexer.next_lowered`, `Grammar.Line.moves` — reading moves along.
* `Node.regionNotices_lowered` — so does what the analysis finds.
* `Node.emit_lowered` — encoding gives the same words, also with a larger symbol table.
-/

/-- How far below the beginning of a text a source starts, at the beginning of a line. -/
structure Depth where
  lines : Nat
  bytes : Nat

/-- The beginning of a text itself. -/
def Depth.zero : Depth := ⟨0, 0⟩

variable (depth : Depth)

/-! ### What moves along -/

namespace Location

/-- The same place of a source that starts further down. -/
def lowered (location : Location) : Location :=
  ⟨location.line + depth.lines, location.column, location.offset + depth.bytes⟩

/-- A place on a line moves along with the place that it is counted from. -/
theorem lowered_shifted (location : Location) (bytes : Nat) :
    (location.shifted bytes).lowered depth = (location.lowered depth).shifted bytes := by
  simp only [lowered, shifted, Nat.add_right_comm]

theorem lowered_nextLine (location : Location) :
    location.nextLine.lowered depth = (location.lowered depth).nextLine := by
  simp only [lowered, nextLine, Nat.add_right_comm]

end Location

/-- The same token of a source that starts further down. -/
def Token.lowered (token : Token) : Token :=
  { token with location := token.location.lowered depth }

@[simp] theorem Token.kind_lowered (token : Token) : (token.lowered depth).kind = token.kind := rfl

@[simp] theorem Token.text_lowered (token : Token) : (token.lowered depth).text = token.text := rfl

namespace Node

mutual

/-- The same tree of a source that starts further down. -/
def lowered : Node → Node
  | ⟨kind, token?, children⟩ => ⟨kind, token?.map (Token.lowered depth), loweredAll children⟩

/-- The same trees of a source that starts further down. -/
def loweredAll : List Node → List Node
  | [] => []
  | node :: nodes => node.lowered :: loweredAll nodes

end

/-- The nodes of a list move one by one. -/
@[simp] theorem loweredAll_eq_map (nodes : List Node) :
    loweredAll depth nodes = nodes.map (lowered depth) := by
  induction nodes with
  | nil => rfl
  | cons node nodes ih => rw [loweredAll, ih, List.map_cons]

variable (node : Node)

/-- A node moves with its token and its children. -/
theorem lowered_eq : node.lowered depth =
    ⟨node.kind, node.token?.map (Token.lowered depth), node.children.map (lowered depth)⟩ := by
  obtain ⟨kind, token?, children⟩ := node
  rw [lowered, loweredAll_eq_map]

@[simp] theorem kind_lowered : (node.lowered depth).kind = node.kind := by rw [lowered_eq]

@[simp] theorem token?_lowered :
    (node.lowered depth).token? = node.token?.map (Token.lowered depth) := by
  rw [lowered_eq]

@[simp] theorem children_lowered :
    (node.lowered depth).children = node.children.map (lowered depth) := by
  rw [lowered_eq]

@[simp] theorem text_lowered : (node.lowered depth).text = node.text := by
  rw [text, text, token?_lowered]
  cases node.token? <;> rfl

@[simp] theorem location?_lowered :
    (node.lowered depth).location? = node.location?.map (Location.lowered depth) := by
  rw [location?, location?, token?_lowered]
  cases node.token? <;> rfl

@[simp] theorem lowered_leaf (kind : Kind) (token : Token) :
    (leaf kind token).lowered depth = leaf kind (token.lowered depth) := by
  rw [lowered_eq]
  rfl

mutual

/-- The nodes of a tree move along with it. -/
theorem walk_lowered : ∀ node : Node, (node.lowered depth).walk = node.walk.map (lowered depth)
  | ⟨kind, token?, children⟩ => by
    have hchildren := walkAll_map_lowered children
    rw [lowered, walk, walk, List.map_cons, lowered, loweredAll_eq_map, hchildren]

/-- The nodes of some trees move one by one. -/
theorem walkAll_map_lowered :
    ∀ nodes : List Node, walkAll (nodes.map (lowered depth)) = (walkAll nodes).map (lowered depth)
  | [] => rfl
  | node :: nodes => by
    rw [List.map_cons, walkAll, walkAll, List.map_append, walk_lowered node,
      walkAll_map_lowered nodes]

end

/-- The nodes of a kind move along with the others. -/
theorem filter_kind_lowered (kind : Kind) (nodes : List Node) :
    (nodes.map (lowered depth)).filter (·.kind = kind) =
      (nodes.filter (·.kind = kind)).map (lowered depth) := by
  rw [List.filter_map]
  simp only [Function.comp_def, kind_lowered]

mutual

/-- A tree at the beginning of a text is where it is. -/
theorem lowered_zero : ∀ node : Node, node.lowered .zero = node
  | ⟨kind, token?, children⟩ => by
    have htoken : token?.map (Token.lowered .zero) = token? := by cases token? <;> rfl
    rw [lowered, htoken, loweredAll_zero children]

/-- Nothing moves if no line is in front. -/
theorem loweredAll_zero : ∀ nodes : List Node, loweredAll .zero nodes = nodes
  | [] => rfl
  | node :: nodes => by rw [loweredAll, lowered_zero node, loweredAll_zero nodes]

end

end Node

/-! ### Splitting -/

/-- The same lexer of a source that starts further down. -/
def Lexer.lowered (lexer : Lexer) : Lexer :=
  { lexer with location := lexer.location.lowered depth }

namespace Lexer

variable (lexer : Lexer)

/-- Whatever token is found, it moves along with what follows it. -/
private theorem scan_lowered (c : Char) (text : List Char) (location : Location) :
    scan c text (location.lowered depth) =
      ((scan c text location).1.lowered depth, (scan c text location).2.lowered depth) := by
  -- a line break leads to the next line, any other token to a place on the same one
  have hbehind : (if (Lexeme.ofText c text).kind = .linebreak then (location.lowered depth).nextLine
      else (location.lowered depth).shifted
        (Text.byteLength ((c :: text).take (Lexeme.ofText c text).length))) =
      (if (Lexeme.ofText c text).kind = .linebreak then location.nextLine
        else location.shifted
          (Text.byteLength ((c :: text).take (Lexeme.ofText c text).length))).lowered depth := by
    split
    · rw [Location.lowered_nextLine]
    · rw [Location.lowered_shifted]
  simp only [scan, hbehind]
  rfl

/-- **Tokens move along with their source.** -/
theorem next_lowered :
    (lexer.lowered depth).next = (lexer.next.1.lowered depth, lexer.next.2.lowered depth) := by
  cases hfinished : lexer.finished with
  | true =>
    have hfinished' : (lexer.lowered depth).finished = true := hfinished
    rw [next_of_finished hfinished, next_of_finished hfinished']
    rfl
  | false =>
    -- the text that is left is the same, only its place is another
    have hrest : (lexer.lowered depth).rest = lexer.rest := rfl
    have hlocation : (lexer.lowered depth).location = lexer.location.lowered depth := rfl
    have hfinished' : (lexer.lowered depth).finished = false := hfinished
    unfold next
    rw [hfinished, hfinished', hrest, hlocation, if_neg Bool.false_ne_true]
    dsimp only
    rw [if_neg Bool.false_ne_true, ← Location.lowered_shifted]
    -- what is found depends on the text only
    generalize lexer.location.shifted _ = location
    cases lexer.rest.drop (blankLength false lexer.rest) with
    | nil => rfl
    | cons c text =>
      -- a token starts here, or a stray NUL ends the text
      dsimp only
      by_cases hnul : c = '\x00'
      · rw [if_pos hnul, if_pos hnul, ← Location.lowered_shifted]
        rfl
      · rw [if_neg hnul, if_neg hnul, scan_lowered]

/-- The first tokens of a text move along. -/
theorem take_lowered (limit : Nat) :
    ((lexer.lowered depth).take limit).1 = (lexer.take limit).1.map (Token.lowered depth) := by
  induction limit generalizing lexer with
  | zero => rfl
  | succ limit ih =>
    cases hfinished : lexer.finished with
    | true =>
      have hfinished' : (lexer.lowered depth).finished = true := hfinished
      rw [take_of_finished hfinished, take_of_finished hfinished', List.map_nil]
    | false =>
      have hfinished' : (lexer.lowered depth).finished = false := hfinished
      rw [take_succ hfinished, take_succ hfinished', next_lowered, List.map_cons, ih]

end Lexer

/-- The same line of a source that starts further down. -/
def TokenLine.lowered (line : TokenLine) : TokenLine where
  body := line.body.map (Token.lowered depth)
  ending := line.ending.lowered depth
  inside := List.forall_mem_map.mpr line.inside
  ends := line.ends

/-- Lines move along with their tokens. -/
theorem TokenLine.split_map_lowered (tokens : List Token) :
    split (tokens.map (Token.lowered depth)) = (split tokens).map (TokenLine.lowered depth) := by
  induction tokens with
  | nil => rfl
  | cons token tokens ih =>
    rw [List.map_cons, split, split, ih]
    by_cases hends : Grammar.EndsLine token
    · have hends' : Grammar.EndsLine (token.lowered depth) := hends
      rw [dif_pos hends, dif_pos hends']
      rfl
    · have hends' : ¬ Grammar.EndsLine (token.lowered depth) := hends
      rw [dif_neg hends, dif_neg hends']
      cases split tokens <;> rfl

/-! ### Reading -/

namespace Grammar

variable {depth : Depth} {tokens : List Token} {nodes : List Node}

/-- Whether the pieces of source of a form still have it further down. -/
def Moves (form : Form) : Prop :=
  ∀ {depth tokens nodes}, form tokens nodes →
    form (tokens.map (Token.lowered depth)) (nodes.map (Node.lowered depth))

/-- Whether the punctuation of some kind still is further down. -/
def MovesGap (gap : List Token → Prop) : Prop :=
  ∀ {depth tokens}, gap tokens → gap (tokens.map (Token.lowered depth))

/-- A token that may be there may be there anywhere. -/
theorem Optional.moves (kind : TokenKind) : MovesGap (Optional kind) := by
  rintro depth tokens (_ | hkind)
  · exact .none
  · exact .some hkind

/-- A token that has to be there has to be there anywhere. -/
theorem Single.moves (kind : TokenKind) : MovesGap (Single kind) := by
  rintro depth tokens ⟨hkind⟩
  exact .token hkind

/-- Numbers move along with their tokens. -/
theorem Number.moves : Moves Number := by
  intro depth tokens nodes h
  cases h with
  | hex hkind hvalue hfits =>
    rw [List.map_singleton, List.map_singleton, Node.lowered_leaf]
    exact .hex hkind hvalue hfits
  | decimal hpound hdecimal =>
    rw [List.map_append]
    refine .decimal (Optional.moves _ hpound) ?_
    cases hdecimal with
    | plain hkind hvalue hfits =>
      rw [List.map_singleton, List.map_singleton, Node.lowered_leaf]
      exact .plain hkind hvalue hfits
    | negative hminus hkind hvalue hfits =>
      rw [List.map_singleton, Node.lowered_leaf]
      exact .negative hminus hkind hvalue hfits

/-- Operands of directives move along with their tokens. -/
theorem DirectiveOperand.moves : Moves DirectiveOperand := by
  intro depth tokens nodes h
  cases h with
  | number h => exact .number (Number.moves h)
  | label hkind hform =>
    rw [List.map_singleton, List.map_singleton, Node.lowered_leaf]
    exact .label hkind hform
  | @string token hkind =>
    rw [List.map_singleton, List.map_singleton, Node.lowered_leaf]
    exact @DirectiveOperand.string (token.lowered depth) hkind

/-- Operands of instructions move along with their tokens. -/
theorem InstructionOperand.moves : Moves InstructionOperand := by
  intro depth tokens nodes h
  cases h with
  | register hkind hname =>
    rw [List.map_singleton, List.map_singleton, Node.lowered_leaf]
    exact .register hkind hname
  | number h => exact .number (Number.moves h)
  | label hkind hname hform =>
    rw [List.map_singleton, List.map_singleton, Node.lowered_leaf]
    exact .label hkind hname hform

/-- Lists of operands move if the operands do. -/
theorem Operands.moves {operand : Form} {gap : List Token → Prop} (hoperand : Moves operand)
    (hgap : MovesGap gap) : Moves (Operands operand gap) := by
  have hmore : Moves (More operand gap) := by
    intro depth tokens nodes h
    induction h with
    | none => exact .none
    | next hbetween hfirst _ ih =>
      rw [List.map_append, List.map_append, List.map_append]
      exact .next (hgap hbetween) (hoperand hfirst) ih
  intro depth tokens nodes h
  cases h with
  | none => exact .none
  | first hfirst hrest =>
    rw [List.map_append, List.map_append]
    exact .first (hoperand hfirst) (hmore hrest)

/-- The flags of a branch move along with its word. -/
theorem lowered_flagsNode (flags : Flags) (word : Token) :
    (Line.flagsNode flags word).lowered depth = Line.flagsNode flags (word.lowered depth) := by
  rw [Line.flagsNode, Node.lowered_leaf, Token.lowered, Location.lowered_shifted]
  rfl

/-- Statements move along with their tokens. -/
theorem Statement.moves : Moves Statement := by
  intro depth tokens nodes h
  cases h with
  | empty => exact .empty
  | directive hperiod hname hdirective hoperands =>
    rw [List.map_singleton, Node.lowered_eq]
    exact .directive hperiod hname hdirective
      (Operands.moves DirectiveOperand.moves (Optional.moves _) hoperands)
  | @instruction word mnemonic flags? tokens operands hword hinstruction hoperands =>
    have hflags : (flags?.map (Line.flagsNode · word)).toList.map (Node.lowered depth) =
        (flags?.map (Line.flagsNode · (word.lowered depth))).toList := by
      cases flags? with
      | none => rfl
      | some flags => exact congrArg (fun node => [node]) (lowered_flagsNode flags word)
    rw [List.map_singleton, Node.lowered_eq, List.map_append, hflags]
    exact .instruction hword hinstruction
      (Operands.moves InstructionOperand.moves (Single.moves _) hoperands)

/-- The colon of a label moves along. -/
private theorem startsWithColon_map_lowered :
    StartsWithColon (tokens.map (Token.lowered depth)) ↔ StartsWithColon tokens := by
  cases tokens <;> simp [StartsWithColon]

/-- The label of a line moves along. -/
private theorem startsWithLabel_map_lowered :
    StartsWithLabel (tokens.map (Token.lowered depth)) ↔ StartsWithLabel tokens := by
  cases tokens with
  | nil => exact Iff.rfl
  | cons word tokens =>
    exact and_congr_right fun _ => or_congr_left startsWithColon_map_lowered

/-- **Lines move along with their source.** -/
theorem Line.moves : Moves Line := by
  intro depth tokens nodes h
  cases h with
  | unlabelled hlabel hstatement =>
    exact .unlabelled (startsWithLabel_map_lowered.not.mpr hlabel) (Statement.moves hstatement)
  | labelled hlabel hcolon hstatement =>
    rw [List.map_cons, List.map_cons, Node.lowered_leaf]
    exact .labelled (startsWithLabel_map_lowered.mpr hlabel)
      (startsWithColon_map_lowered.not.mpr hcolon) (Statement.moves hstatement)
  | labelledColon hlabel hcolon hstatement =>
    rw [List.map_cons, List.map_cons, List.map_cons, Node.lowered_leaf]
    exact .labelledColon (startsWithLabel_map_lowered.mpr hlabel) hcolon
      (Statement.moves hstatement)

end Grammar

/-! ### Analysis -/

/-- The same region of a source that starts further down. -/
def Region.lowered : Region → Region
  | outside => outside
  | inside origin? => inside (origin?.map (Location.lowered depth))

/-- A place outside of regions stays outside. -/
theorem Region.lowered_eq_outside_iff {depth : Depth} {region : Region} :
    region.lowered depth = .outside ↔ region = .outside := by
  cases region <;> simp [lowered]

/-- The same notice about a source that starts further down. -/
def Notice.lowered (notice : Notice) : Notice :=
  { notice with location? := notice.location?.map (Location.lowered depth) }

@[simp] theorem Notice.isError_lowered (notice : Notice) :
    (notice.lowered depth).isError = notice.isError := rfl

/-- Operands fit the same classes wherever they stand. -/
private theorem Format.fitsClasses_lowered (operands : List Operand) (nodes : List Node) :
    fitsClasses operands (nodes.map (Node.lowered depth)) = fitsClasses operands nodes := by
  induction operands generalizing nodes with
  | nil => cases nodes <;> rfl
  | cons operand operands ih =>
    cases nodes with
    | nil => rfl
    | cons node nodes => rw [List.map_cons, fitsClasses, fitsClasses, ih, Node.kind_lowered]

@[simp] theorem Format.fits_lowered (format : Format) (nodes : List Node) :
    format.fits (nodes.map (Node.lowered depth)) = format.fits nodes :=
  fitsClasses_lowered depth format.operands nodes

namespace Node

@[simp] theorem matchedFormat?_lowered (mnemonic : Mnemonic) (nodes : List Node) :
    matchedFormat? mnemonic (nodes.map (lowered depth)) = matchedFormat? mnemonic nodes := by
  simp only [matchedFormat?, Format.fits_lowered]

variable (node : Node)

/-- What is wrong with the format of a node does not depend on its place. -/
@[simp] theorem formatError?_lowered : (node.lowered depth).formatError? = node.formatError? := by
  have hname : (node.token?.map (Token.lowered depth)).map Token.text =
      node.token?.map Token.text := by
    rw [Option.map_map]
    rfl
  simp only [formatError?, kind_lowered, children_lowered, token?_lowered, Format.fits_lowered,
    matchedFormat?_lowered, hname]

/-- A format is recorded in the node that has moved. -/
theorem recordFormat_lowered :
    (node.lowered depth).recordFormat = node.recordFormat.lowered depth := by
  simp only [recordFormat, kind_lowered, children_lowered, matchedFormat?_lowered]
  split
  case h_1 mnemonic recorded? flags? hkind =>
    split
    case h_1 => simp only [lowered_eq]
    case h_2 => rfl
  case h_2 => rfl

/-- What a statement is blamed for moves along with it. -/
theorem statementNotices_lowered (region : Region) :
    statementNotices (region.lowered depth) (node.lowered depth) =
      (statementNotices region node).map (Notice.lowered depth) := by
  have herror : (region.lowered depth).error? node.kind = region.error? node.kind := by
    cases region with
    | outside => rfl
    | inside origin? =>
      -- all that matters is whether a region is opened
      cases node.kind with
      | directive directive => cases directive <;> rfl
      | _ => rfl
  simp only [statementNotices, kind_lowered, formatError?_lowered, location?_lowered, herror,
    List.map_map]
  rfl

/-- A region that is opened is opened at the place that has moved. -/
theorem after_lowered (region : Region) :
    (region.lowered depth).after (node.lowered depth) = (region.after node).lowered depth := by
  cases region <;> simp only [Region.lowered, Region.after, kind_lowered, location?_lowered] <;>
    split <;> rfl

/-- The region behind some statements moves along with them. -/
theorem foldl_after_lowered (region : Region) (nodes : List Node) :
    (nodes.map (lowered depth)).foldl Region.after (region.lowered depth) =
      (nodes.foldl Region.after region).lowered depth := by
  induction nodes generalizing region with
  | nil => rfl
  | cons node nodes ih => rw [List.map_cons, List.foldl_cons, after_lowered, ih, List.foldl_cons]

/-- **What the analysis finds moves along with the source.** -/
theorem regionNotices_lowered (region : Region) (nodes : List Node) :
    regionNotices (region.lowered depth) (nodes.map (lowered depth)) =
      (regionNotices region nodes).map (Notice.lowered depth) := by
  induction nodes generalizing region with
  | nil => cases region <;> rfl
  | cons node nodes ih =>
    rw [List.map_cons, regionNotices, regionNotices, List.map_append, statementNotices_lowered,
      after_lowered, ih]

/-- As many errors are found wherever a source starts. -/
theorem countP_regionNotices_lowered (region : Region) (nodes : List Node) :
    (regionNotices (region.lowered depth) (nodes.map (lowered depth))).countP Notice.isError =
      (regionNotices region nodes).countP Notice.isError := by
  rw [regionNotices_lowered, List.countP_map]
  rfl

end Node

/-! ### Encoding -/

/-- The same number of a source that starts further down. -/
def Literal.lowered (literal : Literal) : Literal :=
  { literal with location? := literal.location?.map (Location.lowered depth) }

/-- The same address operand of a source that starts further down. -/
def Address.lowered : Address → Address
  | literal value location? => literal value (location?.map (Location.lowered depth))
  | label name location? => label name (location?.map (Location.lowered depth))

/-- The same operands of a source that starts further down. -/
def Arguments.lowered : Arguments → Arguments
  | .number literal => .number (literal.lowered depth)
  | .address target => .address (target.lowered depth)
  | .branch flags target => .branch flags (target.lowered depth)
  | .vector literal => .vector (literal.lowered depth)
  | .numberAddress literal target =>
    .numberAddress (literal.lowered depth) (target.lowered depth)
  | .registerAddress first target => .registerAddress first (target.lowered depth)
  | .registersNumber first second literal =>
    .registersNumber first second (literal.lowered depth)
  | operands => operands

namespace Node

variable (node : Node)

private theorem register?_lowered : (node.lowered depth).register? = node.register? := by
  rw [register?, register?, kind_lowered]

private theorem string?_lowered : (node.lowered depth).string? = node.string? := by
  rw [string?, string?, kind_lowered]

private theorem flags?_lowered : (node.lowered depth).flags? = node.flags? := by
  rw [flags?, flags?, kind_lowered]

private theorem literal?_lowered :
    (node.lowered depth).literal? = node.literal?.map (Literal.lowered depth) := by
  rw [literal?, literal?, kind_lowered, location?_lowered]
  split <;> rfl

private theorem address?_lowered :
    (node.lowered depth).address? = node.address?.map (Address.lowered depth) := by
  unfold address?
  rw [kind_lowered, location?_lowered, text_lowered]
  cases node.kind <;> rfl

/-- Operands are read wherever their source starts. -/
theorem read?_lowered (format : Format) (nodes : List Node) :
    format.read? (nodes.map (lowered depth)) =
      (format.read? nodes).map (Arguments.lowered depth) := by
  rcases nodes with _ | ⟨a, _ | ⟨b, _ | ⟨c, _ | ⟨d, nodes⟩⟩⟩⟩ <;> cases format <;>
    simp [Format.read?, register?_lowered, string?_lowered, flags?_lowered, literal?_lowered,
      address?_lowered, Option.map_bind, Option.bind_map, Function.comp_def, Arguments.lowered]

/-- Operands are read in the same format wherever they stand. -/
theorem readFirst?_lowered (formats : List Format) (nodes : List Node) :
    Format.readFirst? formats (nodes.map (lowered depth)) =
      (Format.readFirst? formats nodes).map (Arguments.lowered depth) := by
  simp only [Format.readFirst?, read?_lowered, List.map_findSome?]
  rfl

/-- The operands of an instruction move along with it. -/
theorem instructionArguments?_lowered (mnemonic : Mnemonic) (format? : Option Format) :
    (node.lowered depth).instructionArguments? mnemonic format? =
      (node.instructionArguments? mnemonic format?).map (Arguments.lowered depth) := by
  have hrecorded : format?.bind (·.read? (node.children.map (lowered depth))) =
      (format?.bind (·.read? node.children)).map (Arguments.lowered depth) := by
    simp only [read?_lowered, Option.map_bind]
    rfl
  simp only [instructionArguments?, children_lowered, hrecorded, readFirst?_lowered]
  cases format?.bind (·.read? node.children) <;> rfl

end Node

/-- Whether a symbol table gives all labels of another one the same addresses. -/
def SymbolTable.Within (inner outer : SymbolTable) : Prop :=
  ∀ name address, inner.lookup name = some address → outer.lookup name = some address

section Within

variable {depth : Depth} {symbols symbols' : SymbolTable} (hsymbols : symbols.Within symbols')

include hsymbols

/-- An address stands for the same word in a larger symbol table. -/
private theorem Address.resolve_lowered {address : Address} {word : Word}
    (h : address.resolve symbols = .ok word) :
    (address.lowered depth).resolve symbols' = .ok word := by
  cases address with
  | literal value location? => exact h
  | label name location? =>
    cases hlookup : symbols.lookup name with
    | none => simp [resolve, hlookup] at h
    | some value =>
      obtain rfl : value = word := by simpa [resolve, hlookup] using h
      simp only [lowered, resolve, hsymbols _ _ hlookup]

/-- A distance is the same in a larger symbol table. -/
private theorem Address.distance_lowered {target : Address} {width : Width} {next word : Word}
    (h : target.distance width next symbols = .ok word) :
    (target.lowered depth).distance width next symbols' = .ok word := by
  obtain ⟨address, hresolve, h⟩ := bind_eq_ok_iff.mp h
  refine bind_eq_ok_iff.mpr ⟨address, resolve_lowered hsymbols hresolve, ?_⟩
  split at h
  case h_1 => exact h
  case h_2 => cases h

omit hsymbols in
/-- A number goes into its field wherever it stands. -/
private theorem Literal.pack_lowered {literal : Literal} {signedness : Signedness} {width : Width}
    {word : Word} (h : literal.pack signedness width = .ok word) :
    (literal.lowered depth).pack signedness width = .ok word := by
  unfold pack at h ⊢
  rw [lowered]
  split at h
  case h_1 hfield =>
    rw [hfield]
    exact h
  case h_2 => cases h

/-- An instruction has the same word wherever its source starts, also with a larger symbol
    table. -/
theorem Mnemonic.encode_lowered {mnemonic : Mnemonic} {next word : Word} {operands : Arguments}
    (h : mnemonic.encode next symbols operands = .ok word) :
    mnemonic.encode next symbols' (operands.lowered depth) = .ok word := by
  obtain ⟨packed, hpacked, h⟩ := bind_eq_ok_iff.mp h
  refine bind_eq_ok_iff.mpr ⟨packed, ?_, h⟩
  -- one case for each format that has an address or a number; the others have only registers
  cases operands with
  | address target => exact Address.distance_lowered hsymbols hpacked
  | vector literal => exact Literal.pack_lowered hpacked
  | branch flags target | registerAddress register target =>
    obtain ⟨field, hfield, hpacked⟩ := bind_eq_ok_iff.mp hpacked
    exact bind_eq_ok_iff.mpr ⟨field, Address.distance_lowered hsymbols hfield, hpacked⟩
  | registersNumber first second literal =>
    obtain ⟨field, hfield, hpacked⟩ := bind_eq_ok_iff.mp hpacked
    refine bind_eq_ok_iff.mpr ⟨field, ?_, hpacked⟩
    -- the last operand may be a register in other formats, so the ways to pack it are told apart
    unfold packNumber at hfield ⊢
    split at hfield
    case h_3 => exact Literal.pack_lowered hfield
    all_goals
      obtain ⟨number, hnumber, hfield⟩ := bind_eq_ok_iff.mp hfield
      exact bind_eq_ok_iff.mpr ⟨number, Literal.pack_lowered hnumber, hfield⟩
  | _ => exact hpacked

/-- A directive has the same words wherever its source starts, also with a larger symbol table. -/
theorem Directive.encode_lowered {directive : Directive} {operands : Arguments}
    {words : List Word} (h : directive.encode symbols operands = .ok words) :
    directive.encode symbols' (operands.lowered depth) = .ok words := by
  unfold encode at h
  split at h
  case h_2 | h_4 =>
    obtain ⟨value, hvalue, h⟩ := bind_eq_ok_iff.mp h
    exact bind_eq_ok_iff.mpr ⟨value, Address.resolve_lowered hsymbols hvalue, h⟩
  case h_7 => cases h
  all_goals exact h

/-- **Words stay the same** wherever a source starts, also with a larger symbol table. -/
theorem Node.emit_lowered {node : Node} {counter : Counter} {words : List Word}
    (h : node.emit counter symbols = .ok words) :
    (node.lowered depth).emit counter symbols' = .ok words := by
  unfold emit at h ⊢
  rw [kind_lowered]
  split at h
  case h_1 mnemonic format? _ hkind =>
    split at h
    case h_2 => cases h
    case h_1 operands hread =>
      obtain ⟨word, hword, h⟩ := bind_eq_ok_iff.mp h
      have hread' : (node.lowered depth).instructionArguments? mnemonic format? =
          some (operands.lowered depth) := by
        rw [instructionArguments?_lowered, hread]
        rfl
      simp only [hread']
      exact bind_eq_ok_iff.mpr ⟨word, Mnemonic.encode_lowered hsymbols hword, h⟩
  case h_2 directive hkind =>
    unfold emitDirective at h ⊢
    rw [children_lowered, readFirst?_lowered]
    split at h
    case h_2 => cases h
    case h_1 operands hread =>
      rw [hread]
      exact Directive.encode_lowered hsymbols h
  case h_3 => exact h

end Within

end LC3
