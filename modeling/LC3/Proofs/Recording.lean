import LC3.Assembly
import Mathlib.Data.List.Forall2

namespace LC3

/-!
# Recording what is found

Notices are put into words one by one and added to a collection of diagnostics, which counts them.
What was there before stays where it is.

* `Notice.Diagnosed` — some notices and their wordings.
* `Diagnostics.record_eq_ok_iff` — what recording adds.
* `StageResult.outcomeSince_eq` — the errors recorded since a stage began are those that it found.
-/

/-- A computation followed by another succeeds exactly if both do. -/
theorem bind_eq_ok_iff {ε α β : Type} {x : Except ε α} {f : α → Except ε β} {b : β} :
    (x >>= f) = .ok b ↔ ∃ a, x = .ok a ∧ f a = .ok b := by
  cases x <;> simp [bind, Except.bind]

/-- A computation followed by another fails exactly if one of them does. -/
theorem bind_eq_error_iff {ε α β : Type} {x : Except ε α} {f : α → Except ε β} {e : ε} :
    (x >>= f) = .error e ↔ x = .error e ∨ ∃ a, x = .ok a ∧ f a = .error e := by
  cases x <;> simp [bind, Except.bind]

/-- A changed result is one that was there before. -/
theorem map_eq_ok_iff {ε α β : Type} {x : Except ε α} {f : α → β} {b : β} :
    x.map f = .ok b ↔ ∃ a, x = .ok a ∧ f a = b := by
  cases x <;> simp [Except.map]

/-- Where two lists are related, everything in the second has something in the first. -/
theorem exists_mem_of_forall₂ {α β : Type} {related : α → β → Prop} {first : List α}
    {second : List β} (h : List.Forall₂ related first second) {b : β} (hb : b ∈ second) :
    ∃ a ∈ first, related a b := by
  induction h with
  | nil => cases hb
  | @cons a b' first second hab _ ih =>
    rcases List.mem_cons.mp hb with rfl | hb
    · exact ⟨a, List.mem_cons_self, hab⟩
    · obtain ⟨a', hmem, hrelated⟩ := ih hb
      exact ⟨a', List.mem_cons_of_mem _ hmem, hrelated⟩

namespace Notice

/-- Some notices about a source and their wordings, in order. -/
def Diagnosed (source : String) (notices : List Notice) (added : List Diagnostic) : Prop :=
  List.Forall₂ (fun notice diagnostic => notice.diagnose source = .ok diagnostic) notices added

variable {source : String} {notice : Notice} {notices : List Notice} {diagnostic : Diagnostic}
  {added : List Diagnostic}

/-- A wording adds only the place to a notice. -/
theorem exists_place_of_diagnose (h : notice.diagnose source = .ok diagnostic) :
    ∃ place?, diagnostic =
      ⟨notice.severity, notice.problem.message, notice.problem.help?, place?⟩ := by
  unfold diagnose at h
  split at h
  case h_1 =>
    cases h
    exact ⟨none, rfl⟩
  case h_2 =>
    obtain ⟨place, -, hplace⟩ := bind_eq_ok_iff.mp h
    cases hplace
    exact ⟨some place, rfl⟩

/-- A wording is as serious as its notice. -/
theorem severity_of_diagnose (h : notice.diagnose source = .ok diagnostic) :
    diagnostic.severity = notice.severity := by
  obtain ⟨place?, rfl⟩ := exists_place_of_diagnose h
  rfl

/-- There are as many wordings of a severity as there are notices of it. -/
theorem Diagnosed.countP_severity (h : Diagnosed source notices added) (severity : Severity) :
    added.countP (·.severity = severity) = notices.countP (·.severity = severity) := by
  induction h with
  | nil => rfl
  | cons hfirst hrest ih =>
    rw [List.countP_cons, List.countP_cons, ih, severity_of_diagnose hfirst]

/-- There are as many errors in words as there were before. -/
theorem Diagnosed.countP_eq (h : Diagnosed source notices added) :
    added.countP (·.severity = .error) = notices.countP isError :=
  h.countP_severity .error

end Notice

namespace Diagnostics

variable {source : String} {notices : List Notice} {diagnostics recorded : Diagnostics}

@[simp] theorem entries_add (diagnostics : Diagnostics) (diagnostic : Diagnostic) :
    (diagnostics.add diagnostic).entries = diagnostics.entries ++ [diagnostic] := rfl

/-- What is added stands behind what was there before. -/
theorem entries_foldl_add (diagnostics : Diagnostics) (added : List Diagnostic) :
    (added.foldl add diagnostics).entries = diagnostics.entries ++ added := by
  induction added generalizing diagnostics with
  | nil => rw [List.foldl_nil, List.append_nil]
  | cons diagnostic added ih =>
    rw [List.foldl_cons, ih, entries_add, List.append_assoc, List.singleton_append]

/-- What is added is counted. -/
theorem errorCount_foldl_add (diagnostics : Diagnostics) (added : List Diagnostic) :
    (added.foldl add diagnostics).errorCount =
      diagnostics.errorCount + added.countP (·.severity = .error) := by
  rw [errorCount_eq, entries_foldl_add, List.countP_append, ← errorCount_eq]

/-- **Recording adds the wordings of all notices**, in order. -/
theorem record_eq_ok_iff : diagnostics.record source notices = .ok recorded ↔
    ∃ added, Notice.Diagnosed source notices added ∧ recorded = added.foldl add diagnostics := by
  induction notices generalizing diagnostics with
  | nil =>
    constructor
    · intro h
      cases h
      exact ⟨[], .nil, rfl⟩
    · rintro ⟨_, ⟨⟩, rfl⟩
      rfl
  | cons notice notices ih =>
    rw [record, List.foldlM_cons, bind_eq_ok_iff]
    constructor
    · rintro ⟨more, hmore, hrest⟩
      obtain ⟨diagnostic, hdiagnostic, hadd⟩ := bind_eq_ok_iff.mp hmore
      cases hadd
      obtain ⟨added, hadded, rfl⟩ := ih.mp hrest
      exact ⟨diagnostic :: added, .cons hdiagnostic hadded, rfl⟩
    · rintro ⟨_, hadded, rfl⟩
      cases hadded with
      | @cons _ diagnostic _ added hdiagnostic hadded =>
        exact ⟨diagnostics.add diagnostic, bind_eq_ok_iff.mpr ⟨diagnostic, hdiagnostic, rfl⟩,
          ih.mpr ⟨added, hadded, rfl⟩⟩

/-- The errors recorded are those among the notices. -/
theorem errorCount_record (h : diagnostics.record source notices = .ok recorded) :
    recorded.errorCount = diagnostics.errorCount + notices.countP Notice.isError := by
  obtain ⟨added, hadded, rfl⟩ := record_eq_ok_iff.mp h
  rw [errorCount_foldl_add, hadded.countP_eq]

end Diagnostics

/-- **The errors since a stage began are its own**, whatever was recorded before. -/
theorem StageResult.outcomeSince_eq {α : Type} {result : StageResult α} {source : String}
    {diagnostics recorded : Diagnostics}
    (h : diagnostics.record source result.notices = .ok recorded) :
    result.outcomeSince diagnostics.errorCount recorded.errorCount = result.outcome := by
  rw [outcomeSince, Diagnostics.errorCount_record h, Nat.add_sub_cancel_left]
  rfl

end LC3
