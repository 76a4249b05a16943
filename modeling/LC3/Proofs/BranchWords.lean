import LC3.Proofs.LetterCase

namespace LC3

/-!
# Words of branches

A word is looked up in three steps: whether it starts with `BR`, whether only letters of flags
follow, and whether one of these letters comes a second time. What is no branch then is looked up in
the table of names. Here is what comes of that in terms of the characters of the word alone, for
every word.

* `Flags.Distinct`, `Flags.FirstRepeated` — letters of which none is repeated, and the first one
  that is.
* `Flags.Marks` — the flags of some letters.
* `Keyword.BranchWord` — words that look like a branch.
* `Keyword.lookup_recognises` — which words are branches, repeat a flag, are other instructions, or
  can be labels.
-/

/-! ### Letters of flags -/

namespace Flags

/-- The letters of the flags, in both cases. -/
def letters : List Char :=
  ['n', 'z', 'p', 'N', 'Z', 'P']

/-- Whether no letter is there twice, in whatever case. -/
def Distinct (suffix : List Char) : Prop :=
  (suffix.map Char.toLower).Nodup

/-- Whether a character is the first of some whose letter has been there before. -/
def FirstRepeated (suffix : List Char) (c : Char) : Prop :=
  ∃ before after, suffix = before ++ c :: after ∧ Distinct before ∧
    c.toLower ∈ before.map Char.toLower

/-- Whether flags are those of some letters: no letters at all stand for all flags. -/
structure Marks (flags : Flags) (suffix : List Char) : Prop where
  negative : flags.negative = true ↔ suffix = [] ∨ 'n' ∈ suffix.map Char.toLower
  zero : flags.zero = true ↔ suffix = [] ∨ 'z' ∈ suffix.map Char.toLower
  positive : flags.positive = true ↔ suffix = [] ∨ 'p' ∈ suffix.map Char.toLower

/-- The flags of some lower-case letters. -/
def marked (seen : List Char) : Flags :=
  ⟨'n' ∈ seen, 'z' ∈ seen, 'p' ∈ seen⟩

variable {seen suffix : List Char} {c : Char} {flags : Flags}

/-- A letter of a flag is one of six characters. -/
theorem isLetter_iff : isLetter c ↔ c ∈ letters := by
  -- an ASCII character is compared with each of them
  by_cases hascii : c.toNat < 128
  · have hall : ∀ n < 128, isLetter (Char.ofNat n) ↔ Char.ofNat n ∈ letters := by decide +kernel
    have hc := hall c.toNat hascii
    rwa [Char.ofNat_toNat] at hc
  · -- other characters have no case, and are none of the letters
    have hsame : c.toLower = c := by
      unfold Char.toLower
      split
      case isTrue hletter =>
        have hbound : c.val.toNat ≤ 'Z'.val.toNat := UInt32.le_iff_toNat_le.mp hletter.2
        exact absurd (Nat.lt_of_le_of_lt hbound (by decide)) hascii
      case isFalse => rfl
    have hother : ∀ letter ∈ letters, c ≠ letter := by
      rintro letter hletter rfl
      revert hascii
      simp only [letters, List.mem_cons, List.not_mem_nil, or_false] at hletter
      rcases hletter with rfl | rfl | rfl | rfl | rfl | rfl <;> decide
    have hlower : c ≠ 'n' ∧ c ≠ 'z' ∧ c ≠ 'p' :=
      ⟨hother 'n' (by decide), hother 'z' (by decide), hother 'p' (by decide)⟩
    constructor
    · simp [isLetter, hsame, hlower]
    · exact fun hmem => absurd rfl (hother c hmem)

theorem toLower_of_isLetter (h : isLetter c) :
    c.toLower = 'n' ∨ c.toLower = 'z' ∨ c.toLower = 'p' := by
  simpa only [isLetter, Bool.or_eq_true, decide_eq_true_eq, or_assoc] using h

/-- A letter sets its flag unless it has been there. -/
theorem insert?_marked (h : isLetter c) :
    (marked seen).insert? c =
      if c.toLower ∈ seen then Option.none else some (marked (seen ++ [c.toLower])) := by
  rcases toLower_of_isLetter h with hc | hc | hc <;>
    simp [insert?, marked, hc]

/-- A letter that has not been there is another one. -/
private theorem nodup_snoc (hseen : seen.Nodup) (h : c ∉ seen) : (seen ++ [c]).Nodup := by
  rw [List.nodup_append]
  refine ⟨hseen, List.pairwise_singleton _ _, fun a ha b hb hab => ?_⟩
  rw [hab, List.mem_singleton.mp hb] at ha
  exact h ha

/-- Letters set their flags if none of them has been there, among them or before. -/
theorem insertAll_eq_ok_iff (hseen : seen.Nodup) (hsuffix : ∀ c ∈ suffix, isLetter c) :
    (marked seen).insertAll suffix = .ok flags ↔
      (seen ++ suffix.map Char.toLower).Nodup ∧
        flags = marked (seen ++ suffix.map Char.toLower) := by
  induction suffix generalizing seen with
  | nil =>
    rw [insertAll, List.map_nil, List.append_nil, Except.ok.injEq]
    exact ⟨fun h => ⟨hseen, h.symm⟩, fun h => h.2.symm⟩
  | cons d suffix ih =>
    obtain ⟨hd, hsuffix⟩ := List.forall_mem_cons.mp hsuffix
    rw [insertAll, insert?_marked hd, List.map_cons]
    by_cases hagain : d.toLower ∈ seen
    · rw [if_pos hagain]
      -- a letter that has been there is an error, and no list that starts with it is distinct
      constructor
      · intro h
        cases h
      · rintro ⟨hnodup, -⟩
        exact absurd rfl ((List.nodup_append.mp hnodup).2.2 _ hagain _ List.mem_cons_self)
    · -- a new letter joins those that have been there
      rw [if_neg hagain, List.append_cons seen d.toLower (suffix.map Char.toLower)]
      exact ih (nodup_snoc hseen hagain) hsuffix

/-- The first letter that has been there is the one that is told. -/
theorem insertAll_eq_error_iff (hseen : seen.Nodup) (hsuffix : ∀ c ∈ suffix, isLetter c) :
    (marked seen).insertAll suffix = .error c ↔
      ∃ before after, suffix = before ++ c :: after ∧ (seen ++ before.map Char.toLower).Nodup ∧
        c.toLower ∈ seen ++ before.map Char.toLower := by
  induction suffix generalizing seen with
  | nil =>
    rw [insertAll]
    constructor
    · -- without letters there is no error, and none of them is the one that is told
      intro h
      cases h
    · rintro ⟨before, after, h, -⟩
      exact absurd h.symm (by simp)
  | cons d suffix ih =>
    obtain ⟨hd, hsuffix⟩ := List.forall_mem_cons.mp hsuffix
    rw [insertAll, insert?_marked hd]
    by_cases hagain : d.toLower ∈ seen
    · -- the letter has been there, so it is the first one
      rw [if_pos hagain, Except.error.injEq]
      constructor
      · rintro rfl
        exact ⟨[], suffix, rfl, by simpa using hseen, by simpa using hagain⟩
      · rintro ⟨before, after, hbefore, hnodup, -⟩
        cases before with
        | nil => exact (List.cons.inj hbefore).1
        | cons e before =>
          obtain ⟨rfl, -⟩ := List.cons.inj hbefore
          exact absurd rfl ((List.nodup_append.mp hnodup).2.2 _ hagain _ List.mem_cons_self)
    · -- the letter is new, so the one that is told comes behind it
      rw [if_neg hagain]
      refine (ih (nodup_snoc hseen hagain) hsuffix).trans ?_
      constructor
      · rintro ⟨before, after, rfl, hnodup, hmem⟩
        refine ⟨d :: before, after, rfl, ?_, ?_⟩
        · rwa [List.map_cons, List.append_cons]
        · rwa [List.map_cons, List.append_cons]
      · rintro ⟨before, after, hbefore, hnodup, hmem⟩
        cases before with
        | nil =>
          obtain ⟨rfl, -⟩ := List.cons.inj hbefore
          exact absurd (by simpa using hmem) hagain
        | cons e before =>
          obtain ⟨rfl, hrest⟩ := List.cons.inj hbefore
          rw [List.map_cons, List.append_cons] at hnodup hmem
          exact ⟨before, after, hrest, hnodup, hmem⟩

/-- The flags of letters that have been collected are those of the letters. -/
theorem eq_marked_iff (h : suffix ≠ []) :
    flags = marked (suffix.map Char.toLower) ↔ flags.Marks suffix := by
  obtain ⟨negative, zero, positive⟩ := flags
  constructor
  · intro hflags
    obtain ⟨rfl, rfl, rfl⟩ := Flags.mk.inj hflags
    exact ⟨by simp [h], by simp [h], by simp [h]⟩
  · rintro ⟨hnegative, hzero, hpositive⟩
    simp only [h, false_or] at hnegative hzero hpositive
    simp only [marked, Flags.mk.injEq]
    refine ⟨Bool.eq_iff_iff.mpr ?_, Bool.eq_iff_iff.mpr ?_, Bool.eq_iff_iff.mpr ?_⟩
    · rw [hnegative, decide_eq_true_iff]
    · rw [hzero, decide_eq_true_iff]
    · rw [hpositive, decide_eq_true_iff]

/-- A branch without letters is taken under every condition. -/
theorem marks_nil_iff : flags.Marks [] ↔ flags = all := by
  obtain ⟨negative, zero, positive⟩ := flags
  constructor
  · rintro ⟨hnegative, hzero, hpositive⟩
    simp only [true_or, iff_true] at hnegative hzero hpositive
    rw [hnegative, hzero, hpositive]
    rfl
  · rintro ⟨⟩
    exact ⟨by simp, by simp, by simp⟩

/-- The same letters stand for the same flags, in whatever order and case they are. -/
theorem Marks.perm {suffix' : List Char} (h : flags.Marks suffix)
    (hperm : (suffix'.map Char.toLower).Perm (suffix.map Char.toLower)) : flags.Marks suffix' := by
  have hnil : suffix' = [] ↔ suffix = [] := by
    rw [← List.map_eq_nil_iff, ← List.map_eq_nil_iff (l := suffix)]
    exact ⟨fun h => (h ▸ hperm).nil_eq.symm, fun h => (h ▸ hperm).eq_nil⟩
  obtain ⟨hnegative, hzero, hpositive⟩ := h
  refine ⟨?_, ?_, ?_⟩
  · rw [hnil, hperm.mem_iff, hnegative]
  · rw [hnil, hperm.mem_iff, hzero]
  · rw [hnil, hperm.mem_iff, hpositive]

/-- What comes of letters is what comes of collecting them. -/
private theorem ofSuffix_of_letters (h : suffix ≠ []) (hsuffix : ∀ c ∈ suffix, isLetter c) :
    (∀ flags, ofSuffix suffix = .flags flags ↔ (marked []).insertAll suffix = .ok flags) ∧
      (∀ c, ofSuffix suffix = .repeated c ↔ (marked []).insertAll suffix = .error c) ∧
      ofSuffix suffix ≠ .other := by
  have hempty : suffix.isEmpty = false := List.isEmpty_eq_false_iff.mpr h
  have hnone : Flags.none = marked [] := rfl
  rw [ofSuffix, hempty, List.all_eq_true.mpr hsuffix, hnone]
  cases (marked []).insertAll suffix <;> simp

/-- What holds letters only is no other word. -/
theorem ofSuffix_eq_other_iff : ofSuffix suffix = .other ↔ ¬ ∀ c ∈ suffix, isLetter c := by
  rcases eq_or_ne suffix [] with rfl | hnil
  · simp [ofSuffix]
  by_cases hsuffix : ∀ c ∈ suffix, isLetter c
  · exact iff_of_false (ofSuffix_of_letters hnil hsuffix).2.2 (not_not_intro hsuffix)
  · refine iff_of_true ?_ hsuffix
    rw [ofSuffix, if_neg (by simpa using hnil), if_neg (by simpa using hsuffix)]

/-- Letters that are all different are flags. -/
theorem ofSuffix_eq_flags_iff : ofSuffix suffix = .flags flags ↔
    (∀ c ∈ suffix, isLetter c) ∧ Distinct suffix ∧ flags.Marks suffix := by
  rcases eq_or_ne suffix [] with rfl | hnil
  · rw [marks_nil_iff, ofSuffix, List.isEmpty_nil, if_pos rfl, Suffix.flags.injEq]
    constructor
    · rintro rfl
      exact ⟨fun c hc => absurd hc List.not_mem_nil, List.nodup_nil, rfl⟩
    · exact fun h => h.2.2.symm
  by_cases hsuffix : ∀ c ∈ suffix, isLetter c
  · rw [(ofSuffix_of_letters hnil hsuffix).1, insertAll_eq_ok_iff List.nodup_nil hsuffix,
      List.nil_append, eq_marked_iff hnil]
    exact (and_iff_right hsuffix).symm
  · have hother := ofSuffix_eq_other_iff.mpr hsuffix
    exact iff_of_false (by rw [hother]; exact Suffix.noConfusion) fun h => hsuffix h.1

/-- Letters one of which is repeated are none. -/
theorem ofSuffix_eq_repeated_iff : ofSuffix suffix = .repeated c ↔
    (∀ c ∈ suffix, isLetter c) ∧ FirstRepeated suffix c := by
  rcases eq_or_ne suffix [] with rfl | hnil
  · simp [ofSuffix, FirstRepeated]
  by_cases hsuffix : ∀ c ∈ suffix, isLetter c
  · rw [(ofSuffix_of_letters hnil hsuffix).2.1, insertAll_eq_error_iff List.nodup_nil hsuffix]
    exact (and_iff_right hsuffix).symm
  · have hother := ofSuffix_eq_other_iff.mpr hsuffix
    exact iff_of_false (by rw [hother]; exact Suffix.noConfusion) fun h => hsuffix h.1

/-- A letter that has been there is there twice. -/
theorem FirstRepeated.not_distinct (h : FirstRepeated suffix c) : ¬ Distinct suffix := by
  obtain ⟨before, after, rfl, -, hmem⟩ := h
  rw [Distinct, List.map_append, List.map_cons]
  exact fun hnodup => (List.nodup_append.mp hnodup).2.2 _ hmem _ List.mem_cons_self rfl

/-- Letters are all different, or one of them is repeated. -/
theorem exists_ofSuffix_eq_repeated_iff : (∃ c, ofSuffix suffix = .repeated c) ↔
    (∀ c ∈ suffix, isLetter c) ∧ ¬ Distinct suffix := by
  cases hmeans : ofSuffix suffix with
  | flags flags =>
    have hdistinct := (ofSuffix_eq_flags_iff.mp hmeans).2.1
    exact iff_of_false (fun ⟨_, h⟩ => Suffix.noConfusion h) fun h => h.2 hdistinct
  | repeated c =>
    obtain ⟨hsuffix, hrepeated⟩ := ofSuffix_eq_repeated_iff.mp hmeans
    exact iff_of_true ⟨c, rfl⟩ ⟨hsuffix, hrepeated.not_distinct⟩
  | other =>
    have hother := ofSuffix_eq_other_iff.mp hmeans
    exact iff_of_false (fun ⟨_, h⟩ => Suffix.noConfusion h) fun h => hother h.1

end Flags

/-! ### Names -/

/-- A word has an upper-case name if it is the same but for the case of its letters. -/
private theorem isNamed_iff {name word : String}
    (hname : name.toList.map Char.toUpper = name.toList) :
    isNamed name word ↔ SameLetters name.toList word.toList := by
  rw [isNamed, decide_eq_true_iff, SameLetters, hname]

/-- What is looked up among different upper-case names is what has the name. -/
private theorem find?_isNamed_eq_some_iff {α : Type} {all : List α} {name : α → String}
    (hall : ∀ entry, entry ∈ all) (hinjective : Function.Injective name)
    (hname : ∀ entry, (name entry).toList.map Char.toUpper = (name entry).toList) {word : String}
    {entry : α} :
    all.find? (fun entry => isNamed (name entry) word) = some entry ↔
      SameLetters (name entry).toList word.toList := by
  rw [← isNamed_iff (hname entry)]
  constructor
  · intro h
    have hfound := List.find?_some h
    exact hfound
  · -- whatever is found has the name too, and names are different
    intro h
    obtain ⟨other, hother⟩ :
        ∃ other, all.find? (fun entry => isNamed (name entry) word) = some other :=
      Option.isSome_iff_exists.mp (List.find?_isSome.mpr ⟨entry, hall entry, h⟩)
    have hsame : (name other).toList = (name entry).toList := by
      have hnamed := List.find?_some hother
      have hfound := (isNamed_iff (hname other)).mp hnamed
      have hgiven := (isNamed_iff (hname entry)).mp h
      rw [← hname other, ← hname entry]
      exact hfound.symm.trans hgiven
    rw [hother, hinjective (String.toList_inj.mp hsame)]

/-- A word is the name of an instruction in any case of its letters. -/
theorem Mnemonic.ofName?_eq_some_iff {word : String} {mnemonic : Mnemonic} :
    ofName? word = some mnemonic ↔ SameLetters mnemonic.name.toList word.toList := by
  refine find?_isNamed_eq_some_iff (fun entry => ?_) (fun entry other h => ?_) fun entry => ?_
  · cases entry <;> decide
  · cases entry <;> cases other <;> first | rfl | exact absurd h (by decide)
  · cases entry <;> decide

/-- A word is the name of a directive in any case of its letters. -/
theorem Directive.ofName?_eq_some_iff {word : String} {directive : Directive} :
    ofName? word = some directive ↔ SameLetters directive.name.toList word.toList := by
  refine find?_isNamed_eq_some_iff (fun entry => ?_) (fun entry other h => ?_) fun entry => ?_
  · cases entry <;> decide
  · cases entry <;> cases other <;> first | rfl | exact absurd h (by decide)
  · cases entry <;> decide

/-! ### Words -/

namespace Keyword

/-- Whether a word looks like a branch: `BR` in any case and a suffix of letters of flags. -/
def BranchWord (word : String) (suffix : List Char) : Prop :=
  (∃ front, word.toList = front ++ suffix ∧ SameLetters ['B', 'R'] front) ∧
    ∀ c ∈ suffix, c ∈ Flags.letters

variable {word : String} {suffix : List Char} {mnemonic : Mnemonic} {flags : Flags} {c : Char}

/-- A word looks like a branch exactly if letters of flags are behind a `BR` in any case. -/
theorem branchWord_iff : BranchWord word suffix ↔
    branchSuffix? word.toList = some suffix ∧ ∀ c ∈ suffix, Flags.isLetter c := by
  refine and_congr ?_ (forall₂_congr fun c _ => Flags.isLetter_iff.symm)
  constructor
  · rintro ⟨front, hword, hfront⟩
    obtain ⟨b, rest, rfl, hb, hrest⟩ := hfront.exists_cons
    obtain ⟨r, rest, rfl, hr, hrest⟩ := hrest.exists_cons
    obtain rfl := hrest.eq_nil
    rw [hword]
    exact branchSuffix?_eq_some hb hr
  · intro h
    obtain ⟨b, r, hword, hb, hr⟩ := exists_of_branchSuffix? h
    refine ⟨[b, r], hword, ?_⟩
    rw [SameLetters, List.map_cons, List.map_cons, hb, hr]
    rfl

/-- Any other word is looked up among the names. -/
theorem lookup_eq_lookupPlain (h : ∀ suffix, ¬ BranchWord word suffix) :
    lookup word = lookupPlain word := by
  unfold lookup
  split
  case h_1 => rfl
  case h_2 suffix hsuffix =>
    have hother : Flags.ofSuffix suffix = .other :=
      Flags.ofSuffix_eq_other_iff.mpr fun hletters =>
        h suffix (branchWord_iff.mpr ⟨hsuffix, hletters⟩)
    rw [hother]

/-- A name means an instruction without flags. -/
theorem lookupPlain_eq_instruction_iff {flags? : Option Flags} :
    lookupPlain word = .instruction mnemonic flags? ↔
      flags? = none ∧ SameLetters mnemonic.name.toList word.toList := by
  rw [← Mnemonic.ofName?_eq_some_iff, lookupPlain]
  cases Mnemonic.ofName? word <;> simp [eq_comm, and_comm]

/-- A plain word that is unknown is no name of an instruction. -/
theorem lookupPlain_eq_unknown_iff : lookupPlain word = .unknown ↔
    ∀ mnemonic : Mnemonic, ¬ SameLetters mnemonic.name.toList word.toList := by
  simp only [← Mnemonic.ofName?_eq_some_iff, lookupPlain]
  cases Mnemonic.ofName? word <;> simp

theorem lookupPlain_ne_repeatedFlag : lookupPlain word ≠ .repeatedFlag c := by
  unfold lookupPlain
  split <;> exact Meaning.noConfusion

/-- The suffix of a branch is all that follows its first two letters. -/
theorem BranchWord.exists_iff (h : BranchWord word suffix) (P : List Char → Prop) :
    (∃ suffix', BranchWord word suffix' ∧ P suffix') ↔ P suffix := by
  constructor
  · rintro ⟨suffix', h', hP⟩
    obtain rfl := Option.some.inj ((branchWord_iff.mp h').1.symm.trans (branchWord_iff.mp h).1)
    exact hP
  · exact fun hP => ⟨suffix, h, hP⟩

/-- The bare name of a branch has no letters behind it. -/
theorem branchWord_nil_iff :
    BranchWord word [] ↔ SameLetters Mnemonic.br.name.toList word.toList := by
  constructor
  · rintro ⟨⟨front, hword, hfront⟩, -⟩
    rw [hword, List.append_nil]
    exact hfront
  · intro h
    exact ⟨⟨word.toList, (List.append_nil _).symm, h⟩, fun c hc => absurd hc List.not_mem_nil⟩

/-- A word that looks like a branch is one, or repeats a letter. -/
theorem BranchWord.lookup_iff (h : BranchWord word suffix) :
    (∀ c, lookup word = .repeatedFlag c ↔ Flags.FirstRepeated suffix c) ∧
      ((∃ c, lookup word = .repeatedFlag c) ↔ ¬ Flags.Distinct suffix) ∧
      (∀ mnemonic flags, lookup word = .instruction mnemonic (some flags) ↔
        mnemonic = .br ∧ Flags.Distinct suffix ∧ flags.Marks suffix) ∧
      (∀ mnemonic, lookup word ≠ .instruction mnemonic none) ∧ lookup word ≠ .unknown := by
  obtain ⟨hsuffix, hletters⟩ := branchWord_iff.mp h
  -- the letters of the word decide what its suffix means
  have hrepeated : ∀ c, Flags.ofSuffix suffix = .repeated c ↔ Flags.FirstRepeated suffix c :=
    fun c => Flags.ofSuffix_eq_repeated_iff.trans (and_iff_right hletters)
  have hrepeats := Flags.exists_ofSuffix_eq_repeated_iff.trans (and_iff_right hletters)
  have hflags : ∀ flags, Flags.ofSuffix suffix = .flags flags ↔
      Flags.Distinct suffix ∧ flags.Marks suffix :=
    fun flags => Flags.ofSuffix_eq_flags_iff.trans (and_iff_right hletters)
  simp only [← hrepeated, ← hrepeats, ← hflags]
  unfold lookup
  rw [hsuffix]
  dsimp only
  cases hmeans : Flags.ofSuffix suffix with
  | flags flags => simp [eq_comm]
  | repeated c => simp
  | other => exact absurd hletters (Flags.ofSuffix_eq_other_iff.mp hmeans)

/-- **Flags come in any order and case.** -/
theorem BranchWord.rearranged {word' : String} {suffix' : List Char} (h : BranchWord word suffix)
    (h' : BranchWord word' suffix')
    (hperm : (suffix'.map Char.toLower).Perm (suffix.map Char.toLower))
    (hlookup : lookup word = .instruction .br (some flags)) :
    lookup word' = .instruction .br (some flags) := by
  obtain ⟨-, hdistinct, hmarks⟩ := (h.lookup_iff.2.2.1 _ _).mp hlookup
  exact (h'.lookup_iff.2.2.1 _ _).mpr ⟨rfl, hperm.nodup_iff.mpr hdistinct, hmarks.perm hperm⟩

/-- What a word means, in terms of its characters. -/
structure Recognises (word : String) : Prop where
  /-- A branch whose letters repeat one, and which of them is told. -/
  repeated : ∀ c, lookup word = .repeatedFlag c ↔
    ∃ suffix, BranchWord word suffix ∧ Flags.FirstRepeated suffix c
  repeats : (∃ c, lookup word = .repeatedFlag c) ↔
    ∃ suffix, BranchWord word suffix ∧ ¬ Flags.Distinct suffix
  /-- A branch whose letters are all different, and its flags. -/
  branch : ∀ mnemonic flags, lookup word = .instruction mnemonic (some flags) ↔
    mnemonic = .br ∧ ∃ suffix, BranchWord word suffix ∧ Flags.Distinct suffix ∧ flags.Marks suffix
  /-- The letters can come in another order and in another case. -/
  rearranged : ∀ word' suffix suffix' flags, BranchWord word suffix → BranchWord word' suffix' →
    (suffix'.map Char.toLower).Perm (suffix.map Char.toLower) →
      lookup word = .instruction .br (some flags) → lookup word' = .instruction .br (some flags)
  /-- The name of another instruction. -/
  plain : ∀ mnemonic, lookup word = .instruction mnemonic none ↔
    mnemonic ≠ .br ∧ (∀ suffix, ¬ BranchWord word suffix) ∧
      SameLetters mnemonic.name.toList word.toList
  /-- No instruction at all. -/
  unknown : lookup word = .unknown ↔
    (∀ suffix, ¬ BranchWord word suffix) ∧
      ∀ mnemonic : Mnemonic, ¬ SameLetters mnemonic.name.toList word.toList
  /-- A word that cannot be a label unless a colon follows it. -/
  reserved : isReserved word ↔ lookup word ≠ .unknown ∨
    ∃ directive : Directive, SameLetters directive.name.toList word.toList

/-- **Words are recognised by their characters.** -/
theorem lookup_recognises (word : String) : Recognises word := by
  have hreserved : isReserved word ↔ lookup word ≠ .unknown ∨
      ∃ directive : Directive, SameLetters directive.name.toList word.toList := by
    simp only [isReserved, Bool.or_eq_true, decide_eq_true_iff, Option.isSome_iff_exists,
      Directive.ofName?_eq_some_iff]
  by_cases hbranch : ∃ suffix, BranchWord word suffix
  case pos =>
    -- the characters behind the `BR` are the only suffix that the word has
    obtain ⟨suffix, h⟩ := hbranch
    have hnot : ¬ ∀ suffix, ¬ BranchWord word suffix := fun hnone => hnone suffix h
    obtain ⟨hrepeated, hrepeats, hflags, hplain, hunknown⟩ := h.lookup_iff
    exact
      { repeated := fun c => (hrepeated c).trans (h.exists_iff (Flags.FirstRepeated · c)).symm
        repeats := hrepeats.trans (h.exists_iff (¬ Flags.Distinct ·)).symm
        branch := fun mnemonic flags => (hflags mnemonic flags).trans (and_congr_right fun _ =>
          (h.exists_iff fun suffix => Flags.Distinct suffix ∧ flags.Marks suffix).symm)
        rearranged := fun _ _ _ _ => BranchWord.rearranged
        plain := fun mnemonic => iff_of_false (hplain mnemonic) fun h => hnot h.2.1
        unknown := iff_of_false hunknown fun h => hnot h.1
        reserved := hreserved }
  case neg =>
    have hnone : ∀ suffix, ¬ BranchWord word suffix := fun suffix h => hbranch ⟨suffix, h⟩
    have hlookup := lookup_eq_lookupPlain hnone
    have hfalse : ∀ P : List Char → Prop, ¬ ∃ suffix, BranchWord word suffix ∧ P suffix :=
      fun P ⟨suffix, h, _⟩ => hnone suffix h
    refine
      { repeated := fun c => iff_of_false ?_ (hfalse _)
        repeats := iff_of_false ?_ (hfalse _)
        branch := fun mnemonic flags => iff_of_false ?_ fun h => hfalse _ h.2
        rearranged := fun _ _ _ _ => BranchWord.rearranged
        plain := fun mnemonic => ?_
        unknown := ?_
        reserved := hreserved }
    · rw [hlookup]
      exact lookupPlain_ne_repeatedFlag
    · rw [hlookup]
      exact fun ⟨_, h⟩ => lookupPlain_ne_repeatedFlag h
    · -- a plain word has no flags
      rw [hlookup, lookupPlain_eq_instruction_iff]
      exact fun h => Option.some_ne_none _ h.1
    · -- the name of a branch would be a suffix without letters
      rw [hlookup, lookupPlain_eq_instruction_iff]
      constructor
      · rintro ⟨-, hsame⟩
        refine ⟨?_, hnone, hsame⟩
        rintro rfl
        exact hnone [] (branchWord_nil_iff.mpr hsame)
      · exact fun h => ⟨rfl, h.2.2⟩
    · rw [hlookup, lookupPlain_eq_unknown_iff]
      exact (and_iff_right hnone).symm

end Keyword

end LC3
