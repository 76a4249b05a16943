import LC3.Proofs.Faults
import LC3.Proofs.Listing

namespace LC3

/-!
# Encoding statement by statement

Encoding is the listing of a program, written out: every statement is encoded, or is found to have a
fault, at its own counter. The words and the faults of other statements have no part in it.

* `Listing.Entry.fault?` — what is wrong with a statement where the listing shows it.
* `Node.encode_eq_listing` — the image, the notices and the log of a program from its listing.
* `Node.errors_encode` — there is one error for each statement with a fault.
-/

/-- What is wrong with the statement of an entry, if it cannot be encoded. -/
def Listing.Entry.fault? (entry : Listing.Entry) (symbols : SymbolTable) : Option AssemblyFault :=
  match entry.node.emit entry.counter symbols with
  | .error (.fault fault) => some fault
  | _ => none

/-- An entry has the fault that its node is refused with. -/
theorem Listing.Entry.fault?_eq_some_iff {entry : Listing.Entry} {symbols : SymbolTable}
    {fault : AssemblyFault} : entry.fault? symbols = some fault ↔
      entry.node.emit entry.counter symbols = .error (.fault fault) := by
  unfold fault?
  split
  case h_1 other hemit => simp [hemit]
  case h_2 hnone => exact ⟨nofun, fun h => absurd h (hnone fault)⟩

namespace Node

variable {symbols : SymbolTable} {counter : Counter} {nodes : List Node}

/-- The nodes of the entries of a listing are the statements that are listed. -/
theorem mem_of_mem_listing {entry : Listing.Entry} (h : entry ∈ listing symbols counter nodes) :
    entry.node ∈ nodes := by
  have hmem : entry.node ∈ (listing symbols counter nodes).map Listing.Entry.node :=
    List.mem_map_of_mem h
  rwa [map_node_listing] at hmem

/-- An entry shows the words that its node emits, or none. -/
theorem words_of_mem_listing {entry : Listing.Entry} (h : entry ∈ listing symbols counter nodes) :
    entry.words = entry.node.wordsAt entry.counter symbols := by
  induction nodes generalizing counter with
  | nil => simp [listing] at h
  | cons node nodes ih =>
    rcases List.mem_cons.mp h with rfl | h
    · rfl
    · exact ih h

/-- A statement of a listing has no fault exactly if it is encoded as the words shown. -/
theorem fault?_eq_none_iff {entry : Listing.Entry} (h : entry ∈ listing symbols counter nodes)
    (hown : entry.node.RecordsOwnFormat) :
    entry.fault? symbols = none ↔ entry.node.emit entry.counter symbols = .ok entry.words := by
  have hwords := words_of_mem_listing h
  unfold Listing.Entry.fault?
  cases hemit : entry.node.emit entry.counter symbols with
  | ok words => simp [hwords, wordsAt, hemit]
  | error error =>
    obtain ⟨fault, rfl, -⟩ := isFaultAt_of_emit hown hemit
    simp

/-- **Encoding is the listing.** The words, notices and log records of some statements are those of
    the entries of their listing, in order. -/
theorem emitAll_eq_listing (hown : ∀ node ∈ nodes, node.RecordsOwnFormat) :
    emitAll symbols counter nodes = .ok
      { product := (listing symbols counter nodes).flatMap Listing.Entry.words
        notices := ((listing symbols counter nodes).filterMap (·.fault? symbols)).map
          AssemblyFault.notice
        log := (listing symbols counter nodes).flatMap fun entry =>
          entry.node.emitLog entry.counter entry.words } := by
  induction nodes generalizing counter with
  | nil => rfl
  | cons node nodes ih =>
    obtain ⟨hnode, hnodes⟩ := List.forall_mem_cons.mp hown
    have hrest : emitAll symbols (counter.step node) nodes = _ := ih hnodes
    cases hemit : node.emit (counter.step node) symbols with
    | ok words =>
      simp [emitAll, hrest, hemit, listing, wordsAt, Listing.Entry.fault?, bind, Except.bind, pure,
        Except.pure]
    | error error =>
      obtain ⟨fault, rfl, -⟩ := isFaultAt_of_emit hnode hemit
      -- a statement with a fault has no words, and so no log record
      have hlog : node.emitLog (counter.step node) [] = [] := by
        unfold emitLog
        split <;> rfl
      simp [emitAll, hrest, hemit, listing, wordsAt, Listing.Entry.fault?, hlog, bind, Except.bind,
        pure, Except.pure]

/-- Encoding a program is its listing. -/
theorem encode_eq_listing {root : Node} (hown : ∀ node ∈ root.children, node.RecordsOwnFormat)
    (symbols : SymbolTable) :
    ∃ log, root.encode symbols = .ok
      { product := ⟨(listing symbols .start root.children).flatMap Listing.Entry.words⟩
        notices := ((listing symbols .start root.children).filterMap (·.fault? symbols)).map
          AssemblyFault.notice
        log } := by
  unfold encode
  rw [emitAll_eq_listing hown]
  exact ⟨_, rfl⟩

/-- **There is one error for each statement with a fault.** -/
theorem errors_encode {root : Node} {result : StageResult Image}
    (hown : ∀ node ∈ root.children, node.RecordsOwnFormat)
    (h : root.encode symbols = .ok result) :
    result.errors =
      (listing symbols .start root.children).countP fun entry => (entry.fault? symbols).isSome := by
  obtain ⟨log, hresult⟩ := encode_eq_listing hown symbols
  obtain rfl := Except.ok.inj (h.symm.trans hresult)
  have hall : ∀ notice ∈ ((listing symbols .start root.children).filterMap
      (·.fault? symbols)).map AssemblyFault.notice, Notice.isError notice := by
    intro notice hnotice
    obtain ⟨fault, -, rfl⟩ := List.mem_map.mp hnotice
    rfl
  rw [StageResult.errors, List.countP_eq_length.mpr hall, List.length_map,
    List.length_filterMap_eq_countP]

end Node

end LC3
