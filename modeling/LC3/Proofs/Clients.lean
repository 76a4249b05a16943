import LC3.Proofs.Budgets

namespace LC3

/-!
# Clients of a context

Whoever works with a context looks at tokens, consumes them, saves places and goes back to them,
adds nodes, reports errors and applies rules. What is done next may depend on all that has been
answered, so that tokens are read from the lexer in any order, and some of them long before the
context comes to them. Nobody can tell. The same answers are given where all tokens of the source
are at hand from the beginning and there is nothing but a place in them, a list of nodes and a list
of errors.

* `Operation`, `Answer`, `Client` — what is done with a context, what comes of it, and what is done
  after that.
* `Cursor`, `Cursor.act` — a place in tokens that are all there, and what operations do to it.
* `Context.tracks_act`, `Context.tracks_run` — a context keeps up with its cursor, operation by
  operation.
* `Client.run_ofSource` — clients cannot tell a context from a cursor.
-/

/-! ### Operations -/

/-- What can be done with a context. -/
inductive Operation where
  /-- Looks at the next token. -/
  | peek
  /-- Looks at a token further ahead. -/
  | peekNth (n : Nat)
  /-- Consumes the next token. -/
  | advance
  /-- Asks for a checkpoint of this place. -/
  | save
  /-- Goes to a checkpoint, be it one that was saved here or not. -/
  | restore (checkpoint : Checkpoint)
  /-- Adds a node. -/
  | push (node : Node)
  /-- Reports an error. -/
  | fail (error : SyntaxError) (token : Token)
  /-- Applies a rule. -/
  | apply (rule : Rule)
  /-- Carries a rule out with checkpoints. -/
  | perform (rule : Rule)

/-- What comes of an operation. -/
inductive Answer where
  | done
  | token (token : Token)
  | checkpoint (checkpoint : Checkpoint)
  | verdict (verdict : Verdict)

/-- A sequence of operations, each of which may depend on the answers to those before it. -/
inductive Client where
  | stop
  | act (operation : Operation) (next : Answer → Client)

/-- Works through a client, with some way to do what it asks for, and collects the answers. -/
def Client.run {State : Type} (act : Operation → State → Except Breach (Answer × State)) :
    Client → State → Except Breach (List Answer × State)
  | .stop, state => .ok ([], state)
  | .act operation next, state => do
    let (answer, behind) ← act operation state
    let (answers, last) ← (next answer).run act behind
    return (answer :: answers, last)

/-- The answer to a rule that has been carried out, if it came to an end. -/
def Context.concluded : Option (Verdict × Context) → Except Breach (Answer × Context)
  | none => .error .endlessRule
  | some (verdict, behind) => .ok (.verdict verdict, behind)

/-- An operation on a context. -/
def Context.act : Operation → Context → Except Breach (Answer × Context)
  | .peek, context => .ok (.token context.peek.1, context.peek.2)
  | .peekNth n, context => .ok (.token (context.peekNth n).1, (context.peekNth n).2)
  | .advance, context => .ok (.token context.advance.1, context.advance.2)
  | .save, context => .ok (.checkpoint context.save, context)
  | .restore checkpoint, context => .ok (.done, context.restore checkpoint)
  | .push node, context => .ok (.done, context.push node)
  | .fail error token, context =>
    let (verdict, behind) := context.fail error token
    .ok (.verdict verdict, behind)
  | .apply rule, context =>
    (context.apply rule).map fun (verdict, behind) => (.verdict verdict, behind)
  | .perform rule, context => concluded (context.perform rule)

/-! ### Cursors -/

/-- A place in a sequence of tokens, and what has been found. -/
@[ext]
structure Cursor where
  /-- How many tokens have been consumed. -/
  position : Nat
  nodes : List Node
  errors : List SyntaxFault

namespace Cursor

/-- The answer to a rule, if it came to an end, and what its outcome adds. -/
def concluded (cursor : Cursor) : Option Outcome → Except Breach (Answer × Cursor)
  | none => .error .endlessRule
  | some outcome =>
    .ok (.verdict outcome.verdict,
      { position := outcome.position
        nodes := cursor.nodes ++ outcome.nodes
        errors := cursor.errors ++ outcome.errors })

/-- Applies a rule where all tokens are there. -/
def apply (tokens : Nat → Token) (budget : Nat) (rule : Rule) (cursor : Cursor) :
    Except Breach (Answer × Cursor) :=
  cursor.concluded (rule.run (.ofTokens tokens) budget cursor.position)

/-- An operation where all tokens are there. Going back takes nodes away and leaves the errors. -/
def act (tokens : Nat → Token) (budget : Nat) :
    Operation → Cursor → Except Breach (Answer × Cursor)
  | .peek, cursor => .ok (.token (tokens cursor.position), cursor)
  | .peekNth n, cursor => .ok (.token (tokens (cursor.position + n)), cursor)
  | .advance, cursor =>
    .ok (.token (tokens cursor.position), { cursor with position := cursor.position + 1 })
  | .save, cursor => .ok (.checkpoint ⟨cursor.position, cursor.nodes.length⟩, cursor)
  | .restore checkpoint, cursor =>
    .ok (.done,
      { cursor with
        position := checkpoint.position
        nodes := cursor.nodes.take checkpoint.nodes })
  | .push node, cursor => .ok (.done, { cursor with nodes := cursor.nodes ++ [node] })
  | .fail error token, cursor =>
    .ok (.verdict .failed, { cursor with errors := cursor.errors ++ [⟨error, token.location⟩] })
  | .apply rule, cursor => cursor.apply tokens budget rule
  | .perform rule, cursor => cursor.apply tokens budget rule

end Cursor

/-- What can be told of a context apart from what has been read. -/
def Context.cursor (context : Context) : Cursor :=
  ⟨context.position, context.nodes, context.errors⟩

/-! ### Keeping up -/

namespace Context

variable {α : Type} {tokens : Nat → Token} {budget : Nat} {context behind : Context}
  {outcome : Outcome}

/-- What is done with a context keeps up with what is done with a cursor: both are given up, or both
    have the same result and leave the same behind. -/
def Tracks (tokens : Nat → Token) (budget : Nat) (reference : Except Breach (α × Cursor))
    (actual : Except Breach (α × Context)) : Prop :=
  match reference with
  | .error breach => actual = .error breach
  | .ok (result, cursor) => ∃ behind, actual = .ok (result, behind) ∧
      behind.buffer.Holds tokens ∧ behind.budget = budget ∧ behind.cursor = cursor

namespace Tracks

/-- An operation that returns keeps up if it leaves the cursor of the reference behind. -/
theorem ok {result : α} {cursor : Cursor} (hholds : behind.buffer.Holds tokens)
    (hbudget : behind.budget = budget) (hcursor : behind.cursor = cursor) :
    Tracks tokens budget (.ok (result, cursor)) (.ok (result, behind)) :=
  ⟨behind, rfl, hholds, hbudget, hcursor⟩

/-- What comes next keeps up if it does from every context that is left behind. -/
theorem bind {β : Type} {reference : Except Breach (α × Cursor)}
    {actual : Except Breach (α × Context)}
    {reference' : α × Cursor → Except Breach (β × Cursor)}
    {actual' : α × Context → Except Breach (β × Context)}
    (h : Tracks tokens budget reference actual)
    (h' : ∀ result behind, behind.buffer.Holds tokens → behind.budget = budget →
      Tracks tokens budget (reference' (result, behind.cursor)) (actual' (result, behind))) :
    Tracks tokens budget (reference >>= reference') (actual >>= actual') := by
  cases reference with
  | error breach =>
    have herror : actual = .error breach := h
    rw [herror]
    exact (rfl : Except.error breach = .error breach)
  | ok result =>
    obtain ⟨result, cursor⟩ := result
    obtain ⟨behind, rfl, hholds, hbudget, rfl⟩ := h
    exact h' result behind hholds hbudget

/-- The result of both may be written in another way. -/
theorem map {β : Type} {reference : Except Breach (α × Cursor)}
    {actual : Except Breach (α × Context)} (h : Tracks tokens budget reference actual)
    (write : α → β) :
    Tracks tokens budget (reference.map fun (result, cursor) => (write result, cursor))
      (actual.map fun (result, behind) => (write result, behind)) := by
  cases reference with
  | error breach =>
    have herror : actual = .error breach := h
    rw [herror]
    exact (rfl : Except.error breach = .error breach)
  | ok result =>
    obtain ⟨result, cursor⟩ := result
    obtain ⟨behind, rfl, hholds, hbudget, hcursor⟩ := h
    exact ⟨behind, rfl, hholds, hbudget, hcursor⟩

/-- What keeps up has the same result but for what has been read. -/
theorem result {reference : Except Breach (α × Cursor)} {actual : Except Breach (α × Context)}
    (h : Tracks tokens budget reference actual) :
    (actual.map fun (result, behind) => (result, behind.cursor)) = reference ∧
      ∀ result behind, actual = .ok (result, behind) → behind.buffer.Holds tokens := by
  cases reference with
  | error breach =>
    obtain rfl : actual = .error breach := h
    exact ⟨rfl, fun _ _ hok => by cases hok⟩
  | ok result =>
    obtain ⟨result, cursor⟩ := result
    obtain ⟨behind, rfl, hholds, -, rfl⟩ := h
    refine ⟨rfl, fun _ _ hok => ?_⟩
    cases hok
    exact hholds

end Tracks

/-- What an outcome adds to a context it adds to its cursor. -/
private theorem After.cursor_eq (h : After tokens context outcome behind) :
    behind.cursor =
      ⟨outcome.position, context.nodes ++ outcome.nodes, context.errors ++ outcome.errors⟩ :=
  Cursor.ext h.position h.nodes h.errors

/-- Carrying a rule out keeps up with its run on the tokens. -/
private theorem tracks_concluded {run : Option Outcome} {performed : Option (Verdict × Context)}
    (h : Agrees tokens context run performed) :
    Tracks tokens context.budget (context.cursor.concluded run) (concluded performed) := by
  cases run with
  | none =>
    obtain rfl : performed = none := h
    exact (rfl : Except.error Breach.endlessRule = .error .endlessRule)
  | some outcome =>
    obtain ⟨behind, rfl, hafter⟩ := h
    exact .ok hafter.holds hafter.budget hafter.cursor_eq

/-- So does applying it. -/
private theorem tracks_apply (rule : Rule) (h : context.buffer.Holds tokens) :
    Tracks tokens context.budget (context.cursor.apply tokens context.budget rule)
      (context.act (.apply rule)) := by
  have hrun : context.cursor.apply tokens context.budget rule =
      context.cursor.concluded (rule.run (.ofTokens tokens) context.budget context.position) := rfl
  rw [hrun, act]
  cases hrule : rule.run (.ofTokens tokens) context.budget context.position with
  | none =>
    rw [apply_of_run_eq_none h hrule]
    exact (rfl : Except.error Breach.endlessRule = .error .endlessRule)
  | some outcome =>
    obtain ⟨behind, happly, hafter⟩ := exists_apply_of_run h hrule
    rw [happly]
    exact .ok hafter.holds hafter.budget hafter.cursor_eq

/-- **Every operation keeps up.** Whatever has been read of the tokens, an operation on a context
    answers what it does on its cursor, and leaves a context of the same tokens. -/
theorem tracks_act (operation : Operation) (h : context.buffer.Holds tokens) :
    Tracks tokens context.budget (Cursor.act tokens context.budget operation context.cursor)
      (context.act operation) := by
  have hpeek : ∀ n, Tracks tokens context.budget
      (.ok (Answer.token (tokens (context.position + n)), context.cursor))
      (.ok (.token (context.peekNth n).1, (context.peekNth n).2)) := by
    intro n
    obtain ⟨htoken, hseen⟩ := after_peekNth h n
    rw [htoken]
    exact .ok hseen.holds rfl rfl
  cases operation with
  | peek => exact hpeek 0
  | peekNth n => exact hpeek n
  | advance =>
    obtain ⟨htoken, hseen⟩ := after_peek h
    show Tracks _ _ _ (.ok (Answer.token context.peek.1, _))
    rw [htoken]
    exact .ok hseen.holds rfl rfl
  | save => exact .ok h rfl rfl
  | restore checkpoint => exact .ok h rfl rfl
  | push node => exact .ok h rfl rfl
  | fail error token => exact .ok h rfl rfl
  | apply rule => exact tracks_apply rule h
  | perform rule => exact tracks_concluded (agrees_perform rule h)

/-- **Every client keeps up**, from every context on. -/
theorem tracks_run (client : Client) (h : context.buffer.Holds tokens) :
    Tracks tokens context.budget
      (client.run (Cursor.act tokens context.budget) context.cursor)
      (client.run act context) := by
  induction client generalizing context with
  | stop => exact .ok h rfl rfl
  | act operation next ih =>
    refine (tracks_act operation h).bind fun answer behind hholds hbudget => ?_
    have hnext := ih answer hholds
    rw [hbudget] at hnext
    exact hnext.map (answer :: ·)

end Context

/-! ### What is never taken back -/

namespace Cursor

variable {tokens : Nat → Token} {budget : Nat} {cursor behind : Cursor}

/-- No operation takes an error away, and none but going back takes nodes away. -/
theorem keeps_of_act {operation : Operation} {answer : Answer}
    (h : cursor.act tokens budget operation = .ok (answer, behind)) :
    cursor.errors <+: behind.errors ∧
      (cursor.nodes <+: behind.nodes ∨
        ∃ checkpoint, operation = .restore checkpoint ∧ behind.nodes <+: cursor.nodes) := by
  -- rules keep errors and nodes, by the contract of their outcomes
  have hrule : ∀ rule, cursor.apply tokens budget rule = .ok (answer, behind) →
      cursor.errors <+: behind.errors ∧ cursor.nodes <+: behind.nodes := by
    intro rule happly
    unfold apply at happly
    cases hrun : rule.run (.ofTokens tokens) budget cursor.position with
    | none =>
      rw [hrun] at happly
      cases happly
    | some outcome =>
      rw [hrun] at happly
      cases happly
      exact ⟨List.prefix_append _ _, List.prefix_append _ _⟩
  -- only going back cuts the nodes, and it leaves a beginning of them
  cases operation with
  | peek | peekNth | advance | save =>
    cases h
    exact ⟨List.prefix_rfl, .inl List.prefix_rfl⟩
  | restore checkpoint =>
    cases h
    exact ⟨List.prefix_rfl, .inr ⟨checkpoint, rfl, List.take_prefix _ _⟩⟩
  | push node =>
    cases h
    exact ⟨List.prefix_rfl, .inl (List.prefix_append _ _)⟩
  | fail error token =>
    cases h
    exact ⟨List.prefix_append _ _, .inl List.prefix_rfl⟩
  | apply rule => exact (hrule rule h).imp_right .inl
  | perform rule => exact (hrule rule h).imp_right .inl

/-- Errors stay as long as a client goes on. -/
theorem errors_of_run {client : Client} {answers : List Answer}
    (h : client.run (act tokens budget) cursor = .ok (answers, behind)) :
    cursor.errors <+: behind.errors := by
  induction client generalizing cursor answers with
  | stop =>
    cases h
    exact List.prefix_rfl
  | act operation next ih =>
    obtain ⟨⟨answer, middle⟩, hact, hnext⟩ := bind_eq_ok_iff.mp h
    obtain ⟨⟨rest, last⟩, hrest, hlast⟩ := bind_eq_ok_iff.mp hnext
    cases hlast
    exact (keeps_of_act hact).1.trans (ih answer hrest)

end Cursor

/-! ### Sources -/

/-- Rounds to spare make no difference to what is done. -/
theorem Cursor.act_congr_budget {source : String} {budget budget' : Nat}
    (hbudget : source.toList.length < budget) (hbudget' : source.toList.length < budget') :
    act (Lexer.ofSource source).nth budget = act (Lexer.ofSource source).nth budget' := by
  obtain ⟨last, hlength, hend, hsettled⟩ := (Lexer.ofSource source).exists_settled
  have happly : ∀ rule cursor, apply (Lexer.ofSource source).nth budget rule cursor =
      apply (Lexer.ofSource source).nth budget' rule cursor := by
    intro rule cursor
    rw [apply, apply, Rule.run_congr_budget hsettled hend (Nat.lt_of_le_of_lt hlength hbudget)
      (Nat.lt_of_le_of_lt hlength hbudget')]
  funext operation cursor
  cases operation with
  | apply rule => exact happly rule cursor
  | perform rule => exact happly rule cursor
  | _ => rfl

/-- **Clients cannot tell a context from a cursor.** Working on a source gives the same answers, and
    the same place, nodes and errors in the end, as working on the sequence of all tokens that its
    lexer gives one behind the other, with any number of rounds that is enough for them. There no
    error is ever taken back. What has been read of the source is the beginning of that sequence. -/
theorem Client.run_ofSource (client : Client) (source : String) :
    let tokens := (Lexer.ofSource source).nth
    let actual := client.run Context.act (.ofSource source)
    (∀ budget, source.toList.length < budget →
      (actual.map fun (answers, behind) => (answers, behind.cursor)) =
        client.run (Cursor.act tokens budget) ⟨0, [], []⟩) ∧
      (∀ budget cursor answers behind,
        client.run (Cursor.act tokens budget) cursor = .ok (answers, behind) →
          cursor.errors <+: behind.errors) ∧
      ∀ answers behind, actual = .ok (answers, behind) → behind.buffer.Holds tokens := by
  intro tokens actual
  have hholds : (Context.ofSource source).buffer.Holds tokens := Buffer.holds_ofSource source
  have htracks : Context.Tracks tokens (source.toList.length + 1)
      (client.run (Cursor.act tokens (source.toList.length + 1)) ⟨0, [], []⟩) actual :=
    Context.tracks_run client hholds
  obtain ⟨hsame, hbehind⟩ := htracks.result
  refine ⟨fun budget hbudget => ?_, fun budget cursor answers behind => Cursor.errors_of_run,
    hbehind⟩
  rw [hsame, Cursor.act_congr_budget hbudget (Nat.lt_succ_self _)]

end LC3
