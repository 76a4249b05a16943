import LC3.Proofs.Contract

namespace LC3

/-!
# How far rules go

A rule that never consumes a token of some sort stays in front of the first such token. There it
also finds its errors, and its repetitions end when the tokens up to there are used up.

* `Rule.Avoids` — a rule consumes no token of a sort.
* `Outcome.Within` — an outcome that lies between two places.
* `Rule.Avoids.exists_run` — such a rule has an outcome in front of the first token of that sort.
-/

/-- The number of tokens that a decision leaves behind: those that it consumes, or those in front of
    its error. -/
def Decision.extent : Decision → Nat
  | reject => 0
  | accept taken _ => taken
  | fail skipped _ => skipped

/-- Whether a decision about two tokens leaves behind no others, and none of a sort. -/
structure Decision.Avoids (decision : Decision) (stop : Token → Prop) (first second : Token) :
    Prop where
  atMost : decision.extent ≤ 2
  first : 0 < decision.extent → ¬ stop first
  second : 1 < decision.extent → ¬ stop second

/-- A rule that mends no failure and never consumes a token of a sort. -/
inductive Rule.Avoids (stop : Token → Prop) : Rule → Prop where
  | primitive {expectation : String} {decide : Token → Token → Decision}
    (h : ∀ first second, (decide first second).Avoids stop first second) :
    Avoids stop (primitive expectation decide)
  | all {rules : List Rule} (h : ∀ rule ∈ rules, Avoids stop rule) : Avoids stop (all rules)
  | any {rules : List Rule} (h : ∀ rule ∈ rules, Avoids stop rule) : Avoids stop (any rules)
  | times {rule : Rule} {least : Nat} {most? : Option Nat} (h : Avoids stop rule) :
    Avoids stop (times rule least most?)
  | commit {rule : Rule} (h : Avoids stop rule) : Avoids stop (commit rule)
  | subtree {rule : Rule} (h : Avoids stop rule) : Avoids stop (subtree rule)
  | expecting {rule : Rule} {expectation : String} (h : Avoids stop rule) :
    Avoids stop (expecting rule expectation)

/-- An outcome with its errors at the tokens between two places, the last one included. -/
def Outcome.Located (outcome : Outcome) (tokens : Nat → Token) (start limit : Nat) : Prop :=
  ∀ fault ∈ outcome.errors,
    ∃ index, start ≤ index ∧ index ≤ limit ∧ fault.location = (tokens index).location

/-- An outcome between two places: it ends there and finds its errors there. -/
structure Outcome.Within (outcome : Outcome) (tokens : Nat → Token) (start limit : Nat) :
    Prop where
  forward : start ≤ outcome.position
  atMost : outcome.position ≤ limit
  located : outcome.Located tokens start limit

namespace Outcome

variable {outcome first rest : Outcome} {tokens : Nat → Token} {start limit : Nat}

/-- An outcome without errors needs to lie in front of the limit only. -/
theorem within_silent {verdict : Verdict} {position : Nat} {nodes : List Node}
    (hforward : start ≤ position) (hlimit : position ≤ limit) :
    (⟨verdict, position, nodes, []⟩ : Outcome).Within tokens start limit :=
  ⟨hforward, hlimit, List.forall_mem_nil _⟩

theorem Within.le (h : outcome.Within tokens start limit) : start ≤ limit :=
  Nat.le_trans h.forward h.atMost

/-- Going back keeps how a rule ends, and its errors. -/
theorem verdict_rewind : (outcome.rewind start).verdict = outcome.verdict := by
  unfold Outcome.rewind
  split <;> rfl

theorem errors_rewind : (outcome.rewind start).errors = outcome.errors := by
  unfold Outcome.rewind
  split <;> rfl

/-- Going back, or dropping nodes, leaves an outcome between its places. -/
theorem Within.replace (h : outcome.Within tokens start limit) {verdict : Verdict}
    {position : Nat} {nodes : List Node}
    (hposition : position = start ∨ position = outcome.position) :
    (⟨verdict, position, nodes, outcome.errors⟩ : Outcome).Within tokens start limit := by
  rcases hposition with rfl | rfl
  · exact ⟨Nat.le_refl _, h.le, h.located⟩
  · exact ⟨h.forward, h.atMost, h.located⟩

/-- Going back does not lead behind the limit. -/
theorem Within.rewind (h : outcome.Within tokens start limit) :
    (outcome.rewind start).Within tokens start limit := by
  unfold Outcome.rewind
  split
  · exact h
  · exact h.replace (.inl rfl)

/-- Neither does it from a rejection. -/
theorem Within.rewindRejected (h : outcome.Within tokens start limit) :
    (outcome.rewindRejected start).Within tokens start limit := by
  unfold Outcome.rewindRejected
  split
  · exact h.replace (.inl rfl)
  · exact h

/-- A repetition that ends where its last round began is not behind the limit. -/
theorem Within.settle {needed : Nat} (h : outcome.Within tokens start limit) :
    (Outcome.settle needed start outcome.errors).Within tokens start limit :=
  h.replace (.inl rfl)

/-- Gathering nodes moves nothing. -/
theorem Within.gather (h : outcome.Within tokens start limit) :
    outcome.gather.Within tokens start limit := by
  unfold Outcome.gather
  split <;> exact h.replace (.inr rfl)

/-- The error of a rejected rule that must not be rejected is at the token where it ends. -/
theorem Within.insist (h : outcome.Within tokens start limit) {expected : String} :
    (outcome.insist expected (tokens outcome.position)).Within tokens start limit := by
  unfold Outcome.insist
  split
  · refine ⟨h.forward, h.atMost, fun fault hfault => ?_⟩
    rcases List.mem_append.mp hfault with hfault | hfault
    · exact h.located fault hfault
    · rw [List.mem_singleton.mp hfault]
      exact ⟨outcome.position, h.forward, h.atMost, rfl⟩
  · exact h

/-- Errors of an earlier outcome stay. -/
theorem Within.errors_append (hrest : rest.Within tokens start limit)
    (hfirst : first.Within tokens start limit) {nodes : List Node} :
    (⟨rest.verdict, rest.position, nodes, first.errors ++ rest.errors⟩ : Outcome).Within tokens
      start limit :=
  ⟨hrest.forward, hrest.atMost, fun fault h =>
    (List.mem_append.mp h).elim (hfirst.located fault) (hrest.located fault)⟩

/-- Errors behind a place are behind an earlier one. -/
theorem Located.earlier {start' : Nat} (h : outcome.Located tokens start limit)
    (hstart : start' ≤ start) : outcome.Located tokens start' limit := by
  intro fault hfault
  obtain ⟨index, hindex, hlimit, hlocation⟩ := h fault hfault
  exact ⟨index, Nat.le_trans hstart hindex, hlimit, hlocation⟩

theorem Within.earlier {start' : Nat} (h : outcome.Within tokens start limit)
    (hstart : start' ≤ start) : outcome.Within tokens start' limit :=
  ⟨Nat.le_trans hstart h.forward, h.atMost, h.located.earlier hstart⟩

/-- What follows a match lies in front of the same limit. -/
theorem Within.append (hfirst : first.Within tokens start limit)
    (hrest : rest.Within tokens first.position limit) :
    (first.append rest).Within tokens start limit :=
  (hrest.earlier hfirst.forward).errors_append hfirst

end Outcome

/-- The outcome of a decision that consumes no token of a sort lies in front of the first one. -/
theorem Decision.Avoids.within {decision : Decision} {stop : Token → Prop} {tokens : Nat → Token}
    {start limit : Nat} (h : decision.Avoids stop (tokens start) (tokens (start + 1)))
    (hstop : stop (tokens limit)) (hstart : start ≤ limit) :
    (decision.outcome tokens start).Within tokens start limit := by
  have hextent : start + decision.extent ≤ limit := by
    -- otherwise the token at the limit would be one of the two that are consumed
    by_contra hbeyond
    have hatMost := h.atMost
    rcases Nat.lt_or_ge start limit with hlt | hge
    · have hlimit : limit = start + 1 := by omega
      rw [hlimit] at hstop
      exact h.second (by omega) hstop
    · have hlimit : limit = start := Nat.le_antisymm hge hstart
      rw [hlimit] at hstop
      exact h.first (by omega) hstop
  -- the outcome is where the decision ends, and its error at the token there
  cases decision with
  | reject => exact Outcome.within_silent (Nat.le_refl _) hstart
  | accept taken nodes => exact Outcome.within_silent (Nat.le_add_right _ _) hextent
  | fail skipped error =>
    refine ⟨Nat.le_add_right _ _, hextent, fun fault hfault => ?_⟩
    rw [List.mem_singleton.mp hfault]
    exact ⟨start + skipped, Nat.le_add_right _ _, hextent, rfl⟩

namespace Rule

variable {tokens : Nat → Token} {budget start limit : Nat} {stop : Token → Prop}

/-- Two rules that consume no token of a sort. -/
theorem Avoids.pair {first second : Rule} (hfirst : first.Avoids stop)
    (hsecond : second.Avoids stop) : ∀ rule ∈ [first, second], rule.Avoids stop :=
  List.forall_mem_cons.mpr ⟨hfirst, List.forall_mem_singleton.mpr hsecond⟩

/-- A sequence of three avoids what each of them does. -/
theorem Avoids.triple {first second third : Rule} (hfirst : first.Avoids stop)
    (hsecond : second.Avoids stop) (hthird : third.Avoids stop) :
    ∀ rule ∈ [first, second, third], rule.Avoids stop :=
  List.forall_mem_cons.mpr ⟨hfirst, hsecond.pair hthird⟩

/-- Rounds end in front of the limit: each but the last one consumes a token. -/
private theorem exists_runTimes {step : Nat → Option Outcome}
    {exhausted : Nat → Nat → Option Outcome} {rounds needed : Nat} (hstart : start ≤ limit)
    (hstep : ∀ position, start ≤ position → position ≤ limit →
      ∃ outcome, step position = some outcome ∧ outcome.Within tokens position limit)
    (hexhausted : ∀ needed position, start ≤ position → position ≤ limit →
      rounds + start ≤ position →
      ∃ outcome, exhausted needed position = some outcome ∧ outcome.Within tokens position limit) :
    ∃ outcome, runTimes step exhausted rounds needed start = some outcome ∧
      outcome.Within tokens start limit := by
  induction rounds generalizing start needed with
  | zero => exact hexhausted needed start (Nat.le_refl _) hstart (by omega)
  | succ rounds ih =>
    -- the induction is on the rounds that are left; only a match leads to another
    obtain ⟨first, hfirst, hwithin⟩ := hstep start (Nat.le_refl _) hstart
    cases hverdict : first.verdict with
    | rejected =>
      exact ⟨_, runTimes_succ_eq_some_iff.mpr ⟨first, hfirst, .inl ⟨hverdict, rfl⟩⟩,
        hwithin.settle⟩
    | failed =>
      exact ⟨_, runTimes_succ_eq_some_iff.mpr ⟨first, hfirst, .inr (.inl ⟨hverdict, rfl⟩)⟩,
        hwithin⟩
    | matched =>
      have hrest : ∃ rest, rest.Within tokens first.position limit ∧
          if first.position = start then rest = .settle (needed - 1) start []
          else runTimes step exhausted rounds (needed - 1) first.position = some rest := by
        by_cases hposition : first.position = start
        · refine ⟨.settle (needed - 1) start [], ?_, by rw [if_pos hposition]⟩
          rw [hposition]
          exact Outcome.within_silent (Nat.le_refl _) hstart
        · have hforward : start < first.position :=
            Nat.lt_of_le_of_ne hwithin.forward (Ne.symm hposition)
          -- a round less is left, and a token less
          obtain ⟨rest, hrun, hrest⟩ : ∃ rest,
              runTimes step exhausted rounds (needed - 1) first.position = some rest ∧
                rest.Within tokens first.position limit := by
            refine ih hwithin.atMost ?_ ?_
            · intro position h hlimit
              exact hstep position (Nat.le_trans hwithin.forward h) hlimit
            · intro needed position h hlimit hrounds
              exact hexhausted needed position (Nat.le_trans hwithin.forward h) hlimit (by omega)
          exact ⟨rest, hrest, by rwa [if_neg hposition]⟩
      obtain ⟨rest, hrest, hcases⟩ := hrest
      exact ⟨_, runTimes_succ_eq_some_iff.mpr
        ⟨first, hfirst, .inr (.inr ⟨hverdict, rest, rfl, hcases⟩)⟩,
        (hwithin.append hrest).rewindRejected⟩

/-- A sequence ends in front of the limit if its members do. -/
private theorem exists_runAll {rules : List Rule}
    (hrules : ∀ rule ∈ rules, ∀ {start}, start ≤ limit → limit - start < budget →
      ∃ outcome, rule.run (.ofTokens tokens) budget start = some outcome ∧
        outcome.Within tokens start limit)
    (hstart : start ≤ limit) (hbudget : limit - start < budget) :
    ∃ outcome, runAll (.ofTokens tokens) budget rules start = some outcome ∧
      outcome.Within tokens start limit := by
  induction rules generalizing start with
  | nil =>
    rw [runAll]
    exact ⟨_, rfl, Outcome.within_silent (Nat.le_refl _) hstart⟩
  | cons rule rules ih =>
    obtain ⟨hrule, hrules⟩ := List.forall_mem_cons.mp hrules
    obtain ⟨first, hfirst, hwithin⟩ := hrule hstart hbudget
    by_cases hmatched : first.verdict = .matched
    · -- what follows has the tokens behind the first member left
      have hforward := hwithin.forward
      obtain ⟨rest, hrest, hwithin'⟩ := ih hrules hwithin.atMost (by omega)
      exact ⟨_, runAll_cons_eq_some_iff.mpr ⟨first, hfirst, .inl ⟨hmatched, rest, hrest, rfl⟩⟩,
        (hwithin.append hwithin').rewind⟩
    · exact ⟨_, runAll_cons_eq_some_iff.mpr ⟨first, hfirst, .inr ⟨hmatched, rfl⟩⟩,
        hwithin.rewind⟩

/-- Alternatives end in front of the limit if each of them does. -/
private theorem exists_runAny {rules : List Rule}
    (hrules : ∀ rule ∈ rules, ∀ {start}, start ≤ limit → limit - start < budget →
      ∃ outcome, rule.run (.ofTokens tokens) budget start = some outcome ∧
        outcome.Within tokens start limit)
    (hstart : start ≤ limit) (hbudget : limit - start < budget) :
    ∃ outcome, runAny (.ofTokens tokens) budget rules start = some outcome ∧
      outcome.Within tokens start limit := by
  induction rules with
  | nil =>
    rw [runAny]
    exact ⟨_, rfl, Outcome.within_silent (Nat.le_refl _) hstart⟩
  | cons rule rules ih =>
    obtain ⟨hrule, hrules⟩ := List.forall_mem_cons.mp hrules
    obtain ⟨first, hfirst, hwithin⟩ := hrule hstart hbudget
    by_cases hrejected : first.verdict = .rejected
    · -- the next alternative starts at the same place, with the errors of the rejected one in front
      obtain ⟨rest, hrest, hwithin'⟩ := ih hrules
      exact ⟨_, runAny_cons_eq_some_iff.mpr ⟨first, hfirst, .inl ⟨hrejected, rest, hrest, rfl⟩⟩,
        hwithin'.errors_append hwithin⟩
    · exact ⟨_, runAny_cons_eq_some_iff.mpr ⟨first, hfirst, .inr ⟨hrejected, rfl⟩⟩, hwithin⟩

/-- **Rules end.** A rule that consumes no token of a sort has an outcome, and that lies in front of
    the next token of the sort, if repetitions have enough rounds for the tokens up to there. -/
theorem Avoids.exists_run {rule : Rule} (h : rule.Avoids stop) (hstop : stop (tokens limit))
    (hstart : start ≤ limit) (hbudget : limit - start < budget) :
    ∃ outcome, rule.run (.ofTokens tokens) budget start = some outcome ∧
      outcome.Within tokens start limit := by
  induction h generalizing start with
  | primitive h => exact ⟨_, run_primitive, (h _ _).within hstop hstart⟩
  | all _ ih =>
    rw [run]
    exact exists_runAll ih hstart hbudget
  | any _ ih =>
    rw [run]
    exact exists_runAny ih hstart hbudget
  | @times rule least most? _ ih =>
    have hstep : ∀ position, start ≤ position → position ≤ limit →
        ∃ outcome, rule.run (.ofTokens tokens) budget position = some outcome ∧
          outcome.Within tokens position limit :=
      fun position hforward hlimit => ih hlimit (by omega)
    cases most? with
    | none =>
      -- there are more rounds than tokens up to the limit, so they are never used up
      rw [run]
      refine exists_runTimes hstart hstep ?_
      intro needed position _ hlimit hrounds
      omega
    | some most =>
      -- a limit that is given ends the repetition in front of the limit of tokens
      rw [run]
      refine exists_runTimes hstart hstep ?_
      intro needed position _ hlimit _
      exact ⟨_, rfl, Outcome.within_silent (Nat.le_refl _) hlimit⟩
  | commit _ ih =>
    obtain ⟨outcome, hrun, hwithin⟩ := ih hstart hbudget
    exact ⟨_, by rw [run_commit, hrun]; rfl, hwithin.insist⟩
  | subtree _ ih =>
    obtain ⟨outcome, hrun, hwithin⟩ := ih hstart hbudget
    exact ⟨_, by rw [run_subtree, hrun]; rfl, hwithin.gather⟩
  | expecting _ ih =>
    rw [run]
    exact ih hstart hbudget

end Rule

end LC3
