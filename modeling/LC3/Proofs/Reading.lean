import LC3.Proofs.Contract
import LC3.Rule.Context

namespace LC3

/-!
# Tokens that are read when they are needed

A context reads tokens only when a rule looks at them. That cannot be noticed: a rule does what it
would do if all tokens of the source were there, and leaves a buffer of the same tokens.

* `Buffer.Holds` — the buffer gives access to these tokens, whatever has been read of them.
* `Rule.follows_run` — running a rule on a buffer follows its run on the tokens.
* `Context.Reads` — a context of a source.
* `Context.Reads.exists_apply` — applying a rule in a context of a source.
-/

/-! ### Buffers -/

/-- A buffer of a sequence of tokens: some have been read, and the lexer gives the others. -/
structure Buffer.Holds (buffer : Buffer) (tokens : Nat → Token) : Prop where
  held : ∀ index (h : index < buffer.tokens.size), buffer.tokens[index] = tokens index
  ahead : ∀ n, buffer.lexer.nth n = tokens (buffer.tokens.size + n)

namespace Buffer

variable {buffer : Buffer} {tokens : Nat → Token}

/-- Nothing of a source has been read at its beginning. -/
theorem holds_ofSource (source : String) :
    (Buffer.ofSource source).Holds (Lexer.ofSource source).nth where
  held := fun _ h => absurd h (Nat.not_lt_zero _)
  ahead := fun n => congrArg _ (Nat.zero_add n).symm

/-- Reading one more token leaves the sequence alone. -/
private theorem Holds.push (h : buffer.Holds tokens) :
    Holds ⟨buffer.lexer.next.2, buffer.tokens.push buffer.lexer.next.1⟩ tokens where
  held := by
    intro index hindex
    rw [Array.getElem_push]
    split
    case isTrue hold => exact h.held index hold
    case isFalse hnew =>
      have hlast : index = buffer.tokens.size := by
        rw [Array.size_push] at hindex
        omega
      rw [hlast]
      exact h.ahead 0
  ahead := by
    intro n
    show buffer.lexer.nth (n + 1) = tokens ((buffer.tokens.push buffer.lexer.next.1).size + n)
    rw [h.ahead (n + 1), Array.size_push, Nat.add_right_comm, Nat.add_assoc]

/-- Reading more tokens leaves the sequence alone. -/
theorem Holds.fill (h : buffer.Holds tokens) (n : Nat) : (buffer.fill n).Holds tokens := by
  induction n generalizing buffer with
  | zero => exact h
  | succ n ih => exact ih h.push

/-- Access to a token gives that of the sequence. -/
theorem Holds.get (h : buffer.Holds tokens) (index : Nat) :
    (buffer.get index).1 = tokens index ∧ (buffer.get index).2.Holds tokens :=
  ⟨(h.fill _).held index _, h.fill _⟩

end Buffer

/-! ### Runs -/

/-- A computation on a buffer of some tokens comes to the same as one that has all of them. -/
def Buffer.Follows {α : Type} (tokens : Nat → Token) (lazy : StateT Buffer Option α)
    (eager : Option α) : Prop :=
  ∀ buffer, Holds buffer tokens →
    (eager = none ∧ lazy buffer = none) ∨
      ∃ result behind, eager = some result ∧ lazy buffer = some (result, behind) ∧
        Holds behind tokens

namespace Buffer.Follows

variable {α β : Type} {tokens : Nat → Token}

/-- What reads nothing finds what it has. -/
theorem pure (result : α) : Follows tokens (pure result) (some result) :=
  fun buffer hbuffer => .inr ⟨result, buffer, rfl, rfl, hbuffer⟩

/-- What goes on with what has been found follows if both do. -/
theorem bind {lazy : StateT Buffer Option α} {eager : Option α}
    {lazy' : α → StateT Buffer Option β} {eager' : α → Option β}
    (h : Follows tokens lazy eager) (h' : ∀ result, Follows tokens (lazy' result) (eager' result)) :
    Follows tokens (lazy >>= lazy') (eager >>= eager') := by
  intro buffer hbuffer
  rcases h buffer hbuffer with ⟨rfl, hlazy⟩ | ⟨result, behind, rfl, hlazy, hbehind⟩
  · -- what is abandoned at first stays so
    refine .inl ⟨rfl, ?_⟩
    show (lazy buffer).bind _ = none
    rw [hlazy]
    rfl
  · have hrun : (lazy >>= lazy') buffer = lazy' result behind := by
      show (lazy buffer).bind _ = _
      rw [hlazy]
      rfl
    rw [hrun]
    exact h' result behind hbehind

/-- Looking at a token finds the one at its place. -/
theorem token (index : Nat) :
    Follows tokens (Buffer.source.token index) ((TokenSource.ofTokens tokens).token index) := by
  intro buffer hbuffer
  obtain ⟨hget, hbehind⟩ := hbuffer.get index
  exact .inr ⟨tokens index, (buffer.get index).2, rfl, by rw [← hget]; rfl, hbehind⟩

/-- A computation that is abandoned is abandoned either way. -/
theorem abandon :
    Follows tokens (Buffer.source.abandon (α := α)) (TokenSource.ofTokens tokens).abandon :=
  fun _ _ => .inl ⟨rfl, rfl⟩

end Buffer.Follows

namespace Rule

variable {tokens : Nat → Token} {budget : Nat}

open Buffer (Follows)

/-- Skipping comes to the same place. -/
theorem follows_skipPast {sync : TokenKind} {position : Nat} :
    Follows tokens (skipPast Buffer.source sync budget position)
      (skipPast (.ofTokens tokens) sync budget position) := by
  induction budget generalizing position with
  | zero => exact .abandon
  | succ budget ih =>
    rw [skipPast, skipPast]
    refine .bind (.token position) fun next => ?_
    split
    · exact .pure _
    split
    · exact .pure _
    · exact ih

/-- Repetitions follow if their rounds do. -/
theorem follows_runTimes {lazy : Nat → StateT Buffer Option Outcome}
    {eager : Nat → Option Outcome} {exhausted : Nat → Nat → StateT Buffer Option Outcome}
    {exhausted' : Nat → Nat → Option Outcome}
    (hstep : ∀ start, Follows tokens (lazy start) (eager start))
    (hexhausted : ∀ needed start, Follows tokens (exhausted needed start)
      (exhausted' needed start)) {limit needed start : Nat} :
    Follows tokens (runTimes lazy exhausted limit needed start)
      (runTimes eager exhausted' limit needed start) := by
  induction limit generalizing needed start with
  | zero => exact hexhausted needed start
  | succ limit ih =>
    rw [runTimes, runTimes]
    refine .bind (hstep start) fun first => ?_
    split
    · exact .pure _
    · exact .pure _
    split
    · -- a round that consumes nothing, or another one behind
      exact .pure _
    · exact .bind ih fun rest => .pure _

/-- Sequences follow if their rules do. -/
private theorem follows_runAll {rules : List Rule}
    (hrules : ∀ rule ∈ rules, ∀ {start}, Follows tokens (rule.run Buffer.source budget start)
      (rule.run (.ofTokens tokens) budget start)) {start : Nat} :
    Follows tokens (runAll Buffer.source budget rules start)
      (runAll (.ofTokens tokens) budget rules start) := by
  induction rules generalizing start with
  | nil => exact .pure _
  | cons rule rules ih =>
    obtain ⟨hrule, hrules⟩ := List.forall_mem_cons.mp hrules
    rw [runAll, runAll]
    refine .bind hrule fun first => ?_
    split
    · exact .bind (ih hrules) fun rest => .pure _
    · exact .pure _

/-- Alternatives follow if their rules do. -/
private theorem follows_runAny {rules : List Rule}
    (hrules : ∀ rule ∈ rules, ∀ {start}, Follows tokens (rule.run Buffer.source budget start)
      (rule.run (.ofTokens tokens) budget start)) {start : Nat} :
    Follows tokens (runAny Buffer.source budget rules start)
      (runAny (.ofTokens tokens) budget rules start) := by
  induction rules with
  | nil => exact .pure _
  | cons rule rules ih =>
    obtain ⟨hrule, hrules⟩ := List.forall_mem_cons.mp hrules
    rw [runAny, runAny]
    refine .bind hrule fun first => ?_
    split
    · exact .bind (ih hrules) fun rest => .pure _
    · exact .pure _

/-- **Reading ahead is not noticed.** Running a rule on a buffer of some tokens comes to the same as
    running it on the tokens. -/
theorem follows_run {rule : Rule} {start : Nat} :
    Follows tokens (rule.run Buffer.source budget start)
      (rule.run (.ofTokens tokens) budget start) := by
  induction rule using induct generalizing start with
  | primitive expectation decide =>
    rw [run, run]
    refine .bind (.token start) fun first => .bind (.token (start + 1)) fun second => ?_
    split
    · -- only a failure looks at another token
      exact .pure _
    · exact .pure _
    · exact .bind (.token _) fun found => .pure _
  | all rules ih =>
    rw [run, run]
    exact follows_runAll ih
  | any rules ih =>
    rw [run, run]
    exact follows_runAny ih
  | times rule least most? ih =>
    cases most? with
    | none =>
      rw [run, run]
      exact follows_runTimes (fun _ => ih) fun _ _ => .abandon
    | some most =>
      rw [run, run]
      exact follows_runTimes (fun _ => ih) fun _ _ => .pure _
  | commit rule ih =>
    rw [run, run]
    exact .bind ih fun outcome => .bind (.token _) fun found => .pure _
  | subtree rule ih =>
    rw [run, run]
    exact .bind ih fun outcome => .pure _
  | recover rule sync ih =>
    rw [run, run]
    refine .bind ih fun outcome => ?_
    split
    · exact .bind follows_skipPast fun position => .pure _
    · exact .pure _
  | expecting rule expectation ih =>
    rw [run, run]
    exact ih

end Rule

/-! ### Contexts -/

/-- A context of a source: its buffer holds the tokens of the source, and repetitions have enough
    rounds for all of them. -/
structure Context.Reads (context : Context) (source : String) : Prop where
  holds : context.buffer.Holds (Lexer.ofSource source).nth
  enough : source.toList.length < context.budget

namespace Context

variable {context : Context} {source : String}

theorem reads_ofSource (source : String) : (Context.ofSource source).Reads source where
  holds := Buffer.holds_ofSource source
  enough := Nat.lt_succ_self _

/-- Applying a rule in a context of a source does what running it on the tokens says, and leaves a
    context of the same source. -/
theorem Reads.exists_apply {rule : Rule} {outcome : Outcome} (h : context.Reads source)
    (hrun : rule.run (.ofTokens (Lexer.ofSource source).nth) context.budget context.position =
      some outcome) :
    ∃ behind, context.apply rule = .ok (outcome.verdict, behind) ∧ behind.Reads source ∧
      behind.budget = context.budget ∧ behind.position = outcome.position ∧
      behind.nodes = context.nodes ++ outcome.nodes ∧
      behind.errors = context.errors ++ outcome.errors := by
  rcases Rule.follows_run context.buffer h.holds with ⟨hnone, -⟩ | ⟨_, buffer, hsome, hlazy, hholds⟩
  · -- the run on the tokens is not abandoned
    rw [hrun] at hnone
    cases hnone
  · obtain rfl := Option.some.inj (hrun.symm.trans hsome)
    refine ⟨{ context with
      buffer
      position := outcome.position
      nodes := context.nodes ++ outcome.nodes
      errors := context.errors ++ outcome.errors }, ?_, ⟨hholds, h.enough⟩, rfl, rfl, rfl, rfl⟩
    unfold apply
    rw [hlazy]

end Context

end LC3
