import LC3.Proofs.KeywordCase
import LC3.Proofs.Misfits

namespace LC3

/-!
# Numbers as they are written

A decimal literal is written as digits, possibly with a minus in front. It becomes the word that its
number is congruent to, so the range check of an operand does not see the number that is written but
the one that its word is read as: `#65535` is `#-1`.

* `Token.Writes` — the number that is written with some digits.
* `Grammar.builds_keepsNumbers`, `Node.kind_of_writes` — the word that it becomes.
* `Mnemonic.Takes` — which numbers an instruction takes.
* `Assembly.decimal_operands` — which literals are accepted as operands.
-/

/-! ### Literals -/

/-- The number that is written with some digits in a piece of source: a minus right in front of them
    belongs to it. -/
inductive Token.Writes (digits : Token) (tokens : List Token) : Int → Prop where
  | plain {before after : List Token} {value : Nat} (htokens : tokens = before ++ digits :: after)
    (hkind : digits.kind = .number) (hplain : ∀ token ∈ before.getLast?, token.kind ≠ .minus)
    (hvalue : Line.DecimalNumber digits.text value) : Writes digits tokens value
  | negative {before after : List Token} {minus : Token} {value : Nat}
    (htokens : tokens = before ++ minus :: digits :: after) (hkind : digits.kind = .number)
    (hminus : minus.kind = .minus) (hvalue : Line.DecimalNumber digits.text value) :
    Writes digits tokens (-value)

namespace Token.Writes

variable {digits : Token} {tokens first rest : List Token} {v : Int}

/-- What follows a piece of source makes no difference to its numbers. -/
theorem append_left (h : digits.Writes first v) (rest : List Token) :
    digits.Writes (first ++ rest) v := by
  cases h with
  | @plain before after _ htokens hkind hplain hvalue =>
    have hfound : first ++ rest = before ++ digits :: (after ++ rest) := by simp [htokens]
    exact .plain hfound hkind hplain hvalue
  | @negative before after minus _ htokens hkind hminus hvalue =>
    have hfound : first ++ rest = before ++ minus :: digits :: (after ++ rest) := by
      simp [htokens]
    exact .negative hfound hkind hminus hvalue

/-- What stands in front of a piece of source makes no difference to its numbers, unless it ends
    with a minus. -/
theorem append_right (h : digits.Writes rest v)
    (hfirst : ∀ token ∈ first.getLast?, token.kind ≠ .minus) :
    digits.Writes (first ++ rest) v := by
  cases h with
  | @plain before after _ htokens hkind hplain hvalue =>
    have hfound : first ++ rest = first ++ before ++ digits :: after := by simp [htokens]
    refine .plain hfound hkind ?_ hvalue
    -- the token in front of the digits is the last of either piece
    cases before with
    | nil => rwa [List.append_nil]
    | cons token before => rwa [List.getLast?_append_cons]
  | @negative before after minus _ htokens hkind hminus hvalue =>
    have hfound : first ++ rest = first ++ before ++ minus :: digits :: after := by simp [htokens]
    exact .negative hfound hkind hminus hvalue

end Token.Writes

/-- Digits have one value only. -/
private theorem Line.DecimalNumber.unique {text : String} {m n : Nat} (h : DecimalNumber text m)
    (h' : DecimalNumber text n) : m = n := by
  obtain ⟨digits, hdigits, rfl⟩ := h
  obtain ⟨digits', hdigits', rfl⟩ := h'
  have hsame : digits = digits' :=
    (Option.some_injective _).list_map (hdigits.symm.trans hdigits')
  rw [hsame]

/-- The same digits do not occur twice in a source, so one number is written with them. -/
theorem Token.Writes.unique {source : String} {digits : Token} {v w : Int}
    (h : digits.Writes (Lexer.ofSource source).tokens.1 v)
    (h' : digits.Writes (Lexer.ofSource source).tokens.1 w) : v = w := by
  have hnodup := Lexer.nodup_content source
  generalize (Lexer.ofSource source).tokens.1 = tokens at h h' hnodup
  -- what is in front of digits is told by where they are
  have hfront : ∀ {before before' after after'}, digits.kind = .number →
      tokens = before ++ digits :: after → tokens = before' ++ digits :: after' →
      before = before' := by
    intro before before' after after' hkind htokens htokens'
    have hcontent : decide digits.IsContent = true := by simp [IsContent, hkind]
    have hkept : ∀ {piece : List Token}, digits ∈ piece → digits ∈ piece.filter (·.IsContent) :=
      fun hmem => List.mem_filter.mpr ⟨hmem, hcontent⟩
    have hfilter : (digits :: after).filter (·.IsContent) = digits :: after.filter (·.IsContent) :=
      List.filter_cons_of_pos hcontent
    rw [htokens, List.filter_append, hfilter] at hnodup
    obtain ⟨-, hbehind, hapart⟩ := List.nodup_append.mp hnodup
    have hbefore : digits ∉ before :=
      fun hmem => hapart digits (hkept hmem) digits List.mem_cons_self rfl
    have hafter : digits ∉ after := fun hmem => (List.nodup_cons.mp hbehind).1 (hkept hmem)
    rw [htokens, List.append_cons_inj_of_notMem hbefore hafter] at htokens'
    exact htokens'.1
  cases h with
  | plain htokens hkind hplain hvalue =>
    cases h' with
    | plain htokens' _ _ hvalue' => rw [hvalue.unique hvalue']
    | @negative before' after' minus _ htokens' _ hminus hvalue' =>
      -- in front of the digits is no minus in the one, and a minus in the other
      have hbefore := hfront hkind htokens
        (htokens'.trans (List.append_cons before' minus (digits :: after')))
      exact absurd hminus (hplain minus (by simp [hbefore]))
  | @negative before after minus _ htokens hkind hminus hvalue =>
    cases h' with
    | negative htokens' _ _ hvalue' => rw [hvalue.unique hvalue']
    | plain htokens' _ hplain' hvalue' =>
      have hbefore := hfront hkind htokens'
        (htokens.trans (List.append_cons before minus (digits :: after)))
      exact absurd hminus (hplain' minus (by simp [hbefore]))

/-! ### The nodes of literals -/

namespace Grammar

open Node

/-- Whether the nodes of a piece of source that have digits for their tokens are the words of the
    numbers that are written with them. No piece of source ends with a minus. -/
structure KeepsNumbers (tokens : List Token) (nodes : List Node) : Prop where
  closed : ∀ token ∈ tokens.getLast?, token.kind ≠ .minus
  numbers : ∀ node ∈ walkAll nodes, ∀ digits, node.token? = some digits → digits.kind = .number →
    ∃ v, digits.Writes tokens v ∧ node.kind = .number (BitVec.ofInt 16 v)

variable {tokens first rest : List Token} {nodes others operands : List Node}

/-- Two pieces one behind the other keep their numbers if each does. -/
theorem KeepsNumbers.append (h : KeepsNumbers first nodes) (h' : KeepsNumbers rest others) :
    KeepsNumbers (first ++ rest) (nodes ++ others) where
  closed := by
    rw [List.getLast?_append]
    cases hlast : rest.getLast? with
    | none => exact h.closed
    | some last =>
      intro token htoken
      rw [Option.some_or, ← hlast] at htoken
      exact h'.closed token htoken
  numbers := by
    intro node hnode digits hdigits hkind
    rw [walkAll_append] at hnode
    rcases List.mem_append.mp hnode with hnode | hnode
    · obtain ⟨v, hwrites, hvalue⟩ := h.numbers node hnode digits hdigits hkind
      exact ⟨v, hwrites.append_left rest, hvalue⟩
    · -- the piece in front does not end with a minus, so the numbers stay
      obtain ⟨v, hwrites, hvalue⟩ := h'.numbers node hnode digits hdigits hkind
      exact ⟨v, hwrites.append_right h.closed, hvalue⟩

/-- Nothing comes of tokens that are not a minus. -/
theorem keepsNumbers_none (h : ∀ token ∈ tokens, token.kind ≠ .minus) : KeepsNumbers tokens [] where
  closed token htoken := h token (List.mem_of_getLast? htoken)
  numbers := List.forall_mem_nil _

/-- A word comes in front of its operands, and behind it possibly the flags of a branch, which have
    no digits. -/
theorem KeepsNumbers.node {word : Token} {kind : Kind} (flags? : Option Flags)
    (hword : word.kind ∉ [.number, .minus]) (h : KeepsNumbers tokens operands) :
    KeepsNumbers (word :: tokens)
      [⟨kind, some word, (flags?.map (Line.flagsNode · word)).toList ++ operands⟩] := by
  -- the tokens of the word and of flags are not digits, so all digits are below
  simp only [List.mem_cons, List.not_mem_nil, or_false, not_or] at hword
  obtain ⟨hnumber, hminus⟩ := hword
  have hfirst : KeepsNumbers [word] [] :=
    keepsNumbers_none (List.forall_mem_singleton.mpr hminus)
  have hall : KeepsNumbers (word :: tokens) operands := hfirst.append h
  refine ⟨hall.closed, fun node hnode digits hdigits hkind => ?_⟩
  have hnone : ∀ other : Token, some other = some digits → other.kind = word.kind → False := by
    rintro other hother hsame
    obtain rfl := Option.some.inj hother
    exact hnumber (hsame ▸ hkind)
  rw [walkAll_singleton, walkAll_append] at hnode
  rcases List.mem_cons.mp hnode with rfl | hnode
  · exact (hnone word hdigits rfl).elim
  rcases List.mem_append.mp hnode with hflags | hnode
  · cases flags? with
    | none => cases hflags
    | some flags =>
      obtain rfl := List.mem_singleton.mp hflags
      exact (hnone _ hdigits rfl).elim
  · exact hall.numbers node hnode digits hdigits hkind

theorem keepsNumbers_leaf {token : Token} {kind : Kind} (h : token.kind ∉ [.number, .minus]) :
    KeepsNumbers [token] [leaf kind token] :=
  .node none h (keepsNumbers_none (List.forall_mem_nil _))

/-- **A decimal number becomes the word that it is congruent to.** -/
theorem Decimal.keepsNumbers (h : Decimal tokens nodes) : KeepsNumbers tokens nodes := by
  cases h with
  | @plain digits value hkind hvalue hfits =>
    refine ⟨by simp [hkind], List.forall_mem_singleton.mpr fun digits' hdigits _ => ?_⟩
    obtain rfl := Option.some.inj hdigits
    exact ⟨value, .plain (List.nil_append _).symm hkind nofun hvalue, by
      rw [BitVec.ofInt_natCast]⟩
  | @negative minus digits value hminus hkind hvalue hfits =>
    refine ⟨by simp [hkind], List.forall_mem_singleton.mpr fun digits' hdigits _ => ?_⟩
    obtain rfl := Option.some.inj hdigits
    exact ⟨-value, .negative (List.nil_append _).symm hkind hminus hvalue, by
      rw [BitVec.ofInt_neg, BitVec.ofInt_natCast]⟩

/-- **The nodes of a line keep its numbers**, since those of every piece of it do. -/
theorem builds_keepsNumbers : Builds KeepsNumbers where
  none := keepsNumbers_none (List.forall_mem_nil _)
  append := KeepsNumbers.append
  punctuation {token} h := by
    refine keepsNumbers_none (List.forall_mem_singleton.mpr ?_)
    revert h
    cases token.kind <;> decide
  decimal := Decimal.keepsNumbers
  leaf h := by
    cases h with
    | hex hkind | register hkind | reference hkind | string hkind | definition hkind =>
      exact keepsNumbers_leaf (by simp [hkind])
  statement h hoperands := by
    cases h with
    | directive hname => exact .node none (by simp [hname]) hoperands
    | instruction hword => exact .node _ (by simp [hword]) hoperands

end Grammar

/-- The operands of a source that has been analyzed are the words of what is written. -/
theorem Node.kind_of_writes {source : String} {symbols : SymbolTable} {root node operand : Node}
    {digits : Token} {v : Int} (h : Assembly.stagesOf? source = some (symbols, root))
    (hnode : node ∈ root.children) (hoperand : operand ∈ node.children)
    (hdigits : operand.token? = some digits)
    (hwrites : digits.Writes (Lexer.ofSource source).tokens.1 v) :
    operand.kind = .number (BitVec.ofInt 16 v) := by
  obtain ⟨parsed, tree, hparse, htree, hroot, -⟩ := Assembly.stagesOf?_eq_some_iff.mp h
  obtain ⟨nodes, rfl, hkeeps⟩ := exists_built hparse htree Grammar.builds_keepsNumbers
  rw [children_of_analyze hroot] at hnode
  obtain ⟨before, hbefore, rfl⟩ := List.mem_map.mp hnode
  rw [children_recordFormat] at hoperand
  have hkind : digits.kind = .number := by
    cases hwrites with
    | plain _ hkind | negative _ hkind => exact hkind
  -- the tree keeps some number that is written with the digits, and there is only one
  obtain ⟨w, hwrites', hvalue⟩ := hkeeps.numbers operand
    (mem_walkAll_of_mem_children hbefore hoperand) digits hdigits hkind
  rw [hvalue, hwrites'.unique hwrites]

/-! ### Ranges -/

/-- The number operand of an instruction, with the least and the greatest number that it can be. A
    word is read there as a number of which the least is `lowest`. -/
inductive Mnemonic.Takes : Mnemonic → List Node → Node → Int → Int → Int → Prop where
  /-- `ADD R0, R1, #-1` -/
  | immediate {mnemonic : Mnemonic} {target source : Register} (first second operand : Node)
    (hmnemonic : mnemonic ∈ [add, and]) (hfirst : first.kind = .register target)
    (hsecond : second.kind = .register source) :
    Takes mnemonic [first, second, operand] operand (-32768) (-16) 15
  /-- `LDR R0, R1, #2` -/
  | offset {mnemonic : Mnemonic} {target base : Register} (first second operand : Node)
    (hmnemonic : mnemonic ∈ [ldr, str]) (hfirst : first.kind = .register target)
    (hsecond : second.kind = .register base) :
    Takes mnemonic [first, second, operand] operand (-32768) (-32) 31
  /-- `TRAP x25` -/
  | vector (operand : Node) : Takes .trap [operand] operand 0 0 255

/-- The field of a number operand, and how a word is read there. -/
theorem Mnemonic.Takes.exists_packs {mnemonic : Mnemonic} {nodes : List Node} {operand : Node}
    {lowest least greatest : Int} (h : mnemonic.Takes nodes operand lowest least greatest) :
    ∃ signedness width, mnemonic.Packs nodes operand signedness width ∧ operand ∈ nodes ∧
      least = signedness.least width.bits ∧ greatest = signedness.greatest width.bits ∧
      ∀ v, lowest ≤ signedness.read (BitVec.ofInt 16 v) ∧
        signedness.read (BitVec.ofInt 16 v) < lowest + 65536 ∧
        signedness.read (BitVec.ofInt 16 v) % 65536 = v % 65536 := by
  -- how a word is read does not depend on the width of the field
  have hsigned : ∀ v, -32768 ≤ Signedness.signed.read (BitVec.ofInt 16 v) ∧
      Signedness.signed.read (BitVec.ofInt 16 v) < -32768 + 65536 ∧
      Signedness.signed.read (BitVec.ofInt 16 v) % 65536 = v % 65536 := by
    intro v
    rw [Signedness.read, BitVec.toInt_ofInt]
    -- cut to a word, a number is the one in the range that is congruent to it
    have hleast := @Int.le_bmod v (2 ^ 16) (by decide)
    have hgreatest := @Int.bmod_lt v (2 ^ 16) (by decide)
    have hmod := @Int.bmod_emod v (2 ^ 16)
    omega
  have hunsigned : ∀ v, 0 ≤ Signedness.unsigned.read (BitVec.ofInt 16 v) ∧
      Signedness.unsigned.read (BitVec.ofInt 16 v) < 0 + 65536 ∧
      Signedness.unsigned.read (BitVec.ofInt 16 v) % 65536 = v % 65536 := by
    intro v
    rw [Signedness.read, BitVec.toNat_ofInt]
    omega
  cases h with
  | immediate first second operand hmnemonic hfirst hsecond =>
    exact ⟨.signed, .immediate, .immediate first second operand hmnemonic hfirst hsecond,
      by simp, by decide, by decide, hsigned⟩
  | offset first second operand hmnemonic hfirst hsecond =>
    exact ⟨.signed, .baseOffset, .offset first second operand hmnemonic hfirst hsecond,
      by simp, by decide, by decide, hsigned⟩
  | vector operand =>
    exact ⟨.unsigned, .trapVector, .vector operand, by simp, by decide, by decide, hunsigned⟩

namespace Assembly

/-- **Literals as operands.** Of a decimal literal that is the number operand of an instruction, the
    range check sees the number that its word is read as: the one in the range of such words that is
    congruent to what is written, and so what is written if this is in the range itself. The
    instruction is encoded exactly if the operand can be that number, and else encoding reports
    it. -/
theorem decimal_operands {source : String} {symbols : SymbolTable} {root operand : Node}
    {entry : Listing.Entry} {mnemonic : Mnemonic} {format? : Option Format} {flags? : Option Flags}
    {lowest least greatest v : Int} {digits : Token} (h : stagesOf? source = some (symbols, root))
    (hentry : entry ∈ Node.listing symbols .start root.children)
    (hkind : entry.node.kind = .instruction mnemonic format? flags?)
    (htakes : mnemonic.Takes entry.node.children operand lowest least greatest)
    (hdigits : operand.token? = some digits)
    (hwrites : digits.Writes (Lexer.ofSource source).tokens.1 v) :
    ∃ number, lowest ≤ number ∧ number < lowest + 65536 ∧ number % 65536 = v % 65536 ∧
      (lowest ≤ v → v < lowest + 65536 → number = v) ∧
      ((∃ words, entry.node.emit entry.counter symbols = .ok words) ↔
        least ≤ number ∧ number ≤ greatest) ∧
      (¬ (least ≤ number ∧ number ≤ greatest) → ∃ range encoded,
        entry.fault? symbols =
          some ⟨.immediateOutOfRange number range, some digits.location⟩ ∧
        range.signedness.least range.bits = least ∧
        range.signedness.greatest range.bits = greatest ∧
        root.encode symbols = .ok encoded ∧
        AssemblyFault.notice ⟨.immediateOutOfRange number range, some digits.location⟩ ∈
          encoded.notices) := by
  have hnode : entry.node ∈ root.children := Node.mem_of_mem_listing hentry
  have hready := encodable_of_stagesOf? h
  obtain ⟨signedness, width, hpacks, hoperand, rfl, rfl, hread⟩ := htakes.exists_packs
  have hnumber : operand.kind = .number (BitVec.ofInt 16 v) :=
    Node.kind_of_writes h hnode hoperand hdigits hwrites
  have hlocation : operand.location? = some digits.location := by
    rw [Node.location?, hdigits, Option.map_some]
  have hliteral : operand.literal? = some ⟨BitVec.ofInt 16 v, operand.location?⟩ := by
    rw [Node.literal?, hnumber]
  obtain ⟨word, hemit⟩ := Node.exists_emit_eq_pack hkind (hready _ hnode).recordsOwnFormat hpacks
    hliteral
  obtain ⟨hleast, hless, hmod⟩ := hread v
  refine ⟨signedness.read (BitVec.ofInt 16 v), hleast, hless, hmod, by omega, ⟨?_, ?_⟩, ?_⟩
  · rintro ⟨words, hwords⟩
    -- a number that is out of range would be a fault
    by_contra hrange
    rw [hemit, Literal.pack_eq_error hrange] at hwords
    cases hwords
  · intro hrange
    obtain ⟨packed, hpacked⟩ := Literal.exists_pack ⟨BitVec.ofInt 16 v, operand.location?⟩ hrange
    exact ⟨_, by rw [hemit, hpacked, Except.map]⟩
  · -- packing refuses the number, which encoding reports at its digits
    intro hrange
    have hfault : entry.fault? symbols = some ⟨.immediateOutOfRange
        (signedness.read (BitVec.ofInt 16 v)) (.ofWidth signedness width),
        some digits.location⟩ := by
      rw [← hlocation, (hready _ hnode).fault?_eq_some_iff]
      exact .number hkind hpacks hnumber hrange
    obtain ⟨log, hencode⟩ := Node.encode_eq_listing
      (fun node hnode => (hready node hnode).recordsOwnFormat) symbols
    refine ⟨_, _, hfault, rfl, rfl, hencode, List.mem_map_of_mem ?_⟩
    exact List.mem_filterMap.mpr ⟨entry, hentry, hfault⟩

/-- The immediate operand of an addition in a source with one region, found by running the stages in
    front of encoding. -/
private theorem exists_immediate {source : String} {target base : Register} {first second : Token}
    {value : Word} {digits : Token} {fault? : Option AssemblyFault}
    (h : (stagesOf? source).map (fun (symbols, root) =>
      decide ((.instruction .add (some .registersNumber) none,
          [(.register target, some first), (.register base, some second),
            (.number value, some digits)], fault?) ∈
        (Node.listing symbols .start root.children).map fun entry =>
          (entry.node.kind, entry.node.children.map fun operand => (operand.kind, operand.token?),
            entry.fault? symbols))) = some true) :
    ∃ symbols root entry operand, stagesOf? source = some (symbols, root) ∧
      entry ∈ Node.listing symbols .start root.children ∧
      entry.node.kind = .instruction .add (some .registersNumber) none ∧
      Mnemonic.add.Takes entry.node.children operand (-32768) (-16) 15 ∧
      operand.token? = some digits ∧ entry.fault? symbols = fault? := by
  obtain ⟨⟨symbols, root⟩, hstages, hmem⟩ := Option.map_eq_some_iff.mp h
  obtain ⟨entry, hentry, hshape⟩ := List.mem_map.mp (of_decide_eq_true hmem)
  simp only [Prod.mk.injEq, List.map_eq_cons_iff, List.map_eq_nil_iff] at hshape
  obtain ⟨hkind, ⟨first, _, hchildren, ⟨hfirst, -⟩, second, _, rfl, ⟨hsecond, -⟩, operand, _, rfl,
    ⟨-, hdigits⟩, rfl⟩, hfault⟩ := hshape
  refine ⟨symbols, root, entry, operand, hstages, hentry, hkind, ?_, hdigits, hfault⟩
  rw [hchildren]
  exact .immediate first second operand (by decide) hfirst hsecond

/-- A negative literal with a zero in front of its digits, which is out of range. -/
theorem decimal_operands_negative :
    let source := ".orig x3000\nADD R0, R0, #-017\n.end"
    let digits : Token := ⟨.number, "017", ⟨2, 14, 26⟩⟩
    ∃ symbols root entry operand, stagesOf? source = some (symbols, root) ∧
      entry ∈ Node.listing symbols .start root.children ∧
      Mnemonic.add.Takes entry.node.children operand (-32768) (-16) 15 ∧
      operand.token? = some digits ∧ digits.Writes (Lexer.ofSource source).tokens.1 (-17) ∧
      ∃ range, entry.fault? symbols =
        some ⟨.immediateOutOfRange (-17) range, some digits.location⟩ := by
  intro source digits
  have hwrites : digits.Writes (Lexer.ofSource source).tokens.1 (-(17 : Nat)) := by
    have htokens : (Lexer.ofSource source).tokens.1 = (Lexer.ofSource source).tokens.1.take 10 ++
        ⟨.minus, "-", ⟨2, 13, 25⟩⟩ :: digits :: (Lexer.ofSource source).tokens.1.drop 12 := by
      decide +kernel
    have hvalue := (Line.decimalValueFrom_eq_ok_iff (show 0 < Word.count by decide)).mp
      (show Line.decimalValueFrom 0 digits.text.toList = .ok 17 by decide +kernel)
    exact .negative htokens rfl rfl hvalue.1
  obtain ⟨symbols, root, entry, operand, h, hentry, hkind, htakes, hdigits, -⟩ :=
    @exists_immediate source ⟨0⟩ ⟨0⟩ ⟨.word, "R0", ⟨2, 4, 16⟩⟩ ⟨.word, "R0", ⟨2, 8, 20⟩⟩ 0xFFEF#16
      digits (some ⟨.immediateOutOfRange (-17) (.ofWidth .signed .immediate), digits.location⟩)
      (by decide +kernel)
  obtain ⟨number, -, -, -, hsame, -, hreported⟩ :=
    decimal_operands h hentry hkind htakes hdigits hwrites
  obtain rfl : number = -17 := hsame (by decide) (by decide)
  obtain ⟨range, encoded, hfault, -⟩ := hreported (by decide)
  exact ⟨symbols, root, entry, operand, h, hentry, htakes, hdigits, hwrites, range, hfault⟩

/-- A literal that is far out of range, and is taken for another one. -/
theorem large_literal_aside :
    let source := ".orig x3000\nADD R0, R0, #65535\n.end"
    let digits : Token := ⟨.number, "65535", ⟨2, 13, 25⟩⟩
    (assemble source .empty).map Assembly.outcome = .ok (.ok ⟨[0x3000#16, 0x103F#16]⟩) ∧
      ∃ symbols root entry operand, stagesOf? source = some (symbols, root) ∧
        entry ∈ Node.listing symbols .start root.children ∧
        Mnemonic.add.Takes entry.node.children operand (-32768) (-16) 15 ∧
        operand.token? = some digits ∧ digits.Writes (Lexer.ofSource source).tokens.1 65535 ∧
        ¬ ((-16 : Int) ≤ 65535 ∧ (65535 : Int) ≤ 15) ∧ entry.fault? symbols = none := by
  intro source digits
  have hwrites : digits.Writes (Lexer.ofSource source).tokens.1 (65535 : Nat) := by
    have htokens : (Lexer.ofSource source).tokens.1 = (Lexer.ofSource source).tokens.1.take 10 ++
        digits :: (Lexer.ofSource source).tokens.1.drop 11 := by
      decide +kernel
    have hplain : ∀ token ∈ ((Lexer.ofSource source).tokens.1.take 10).getLast?,
        token.kind ≠ .minus := by
      decide +kernel
    have hvalue := (Line.decimalValueFrom_eq_ok_iff (show 0 < Word.count by decide)).mp
      (show Line.decimalValueFrom 0 digits.text.toList = .ok 65535 by decide +kernel)
    exact .plain htokens rfl hplain hvalue.1
  obtain ⟨symbols, root, entry, operand, h, hentry, -, htakes, hdigits, hfault⟩ :=
    @exists_immediate source ⟨0⟩ ⟨0⟩ ⟨.word, "R0", ⟨2, 4, 16⟩⟩ ⟨.word, "R0", ⟨2, 8, 20⟩⟩ 0xFFFF#16
      digits none (by decide +kernel)
  exact ⟨by decide +kernel, symbols, root, entry, operand, h, hentry, htakes, hdigits, hwrites,
    by decide, hfault⟩

end Assembly

end LC3
