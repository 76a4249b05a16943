import LC3.Command
import LC3.Command.Disk
import LC3.Proofs.StringSource

namespace LC3.Command

/-!
# What the command writes

The image is written when everything else has been done. So the command ends in one of two ways:
the image is in the file that was asked for, and no other file has changed; or it fails, and no file
has changed at all.

* `Disk.write_eq_ok_iff`, `Disk.lookup_replace` — where a file is written, and what is found
  afterwards.
* `exists_assembles_iff` — which sources have an image.
* `Job.Succeeds` — whether there is an image, and a place for it.
* `Job.ends_run` — the two ways in which a job ends.
* `writes_only_on_success` — the files behind the command, whatever its arguments.
-/

namespace Disk

variable {disk : Disk} {path : String} {place : Place} {contents : List UInt8}

/-! ### Files -/

/-- Whether a path leads to a place where a file can be written. -/
def Admits (disk : Disk) (path : String) (place : Place) : Prop :=
  disk.locate path = .ok (place, false) ∧ disk.checkLast place = .ok ()

/-- A file can be written exactly if its path leads to a place for it. It is put there. -/
theorem write_eq_ok_iff {after : Disk} : disk.write path contents = .ok after ↔
    ∃ place, disk.Admits path place ∧
      after = { disk with files := replace place contents disk.files } := by
  unfold write Admits
  rw [bind_eq_ok_iff]
  constructor
  · rintro ⟨⟨place, closed⟩, hlocate, h⟩
    cases closed with
    | true => cases h
    | false =>
      obtain ⟨_, hcheck, h⟩ := bind_eq_ok_iff.mp h
      exact ⟨place, ⟨hlocate, hcheck⟩, (Except.ok.inj h).symm⟩
  · rintro ⟨place, ⟨hlocate, hcheck⟩, rfl⟩
    exact ⟨(place, false), hlocate, bind_eq_ok_iff.mpr ⟨(), hcheck, rfl⟩⟩

/-- The disk behind writing a file. -/
theorem run_writeImage (disk : Disk) (path : String) (contents : List UInt8) :
    (system.writeImage path contents).run disk =
      match disk.write path contents with
      | .error error => (.error error, disk)
      | .ok after => (.ok (), after) := by
  simp only [system, StateT.run_bind, StateT.run_get, pure_bind]
  cases disk.write path contents <;> rfl

/-- The first file at a place is the one that is found there. -/
private theorem lookup_cons (files : List (Place × List UInt8)) (other : Place) :
    ((place, contents) :: files).lookup other =
      if other = place then some contents else files.lookup other := by
  by_cases h : other = place
  · rw [if_pos h, h, List.lookup_cons_self]
  · rw [if_neg h, List.lookup_cons, beq_eq_false_iff_ne.mpr h]

/-- A file that is written is found with its new contents, and every other file as before. -/
theorem lookup_replace (files : List (Place × List UInt8)) (other : Place) :
    (replace place contents files).lookup other =
      if other = place then some contents else files.lookup other := by
  induction files with
  | nil => exact lookup_cons [] other
  | cons file files ih =>
    obtain ⟨first, old⟩ := file
    rw [replace]
    split_ifs with hfirst hother hother
    · -- the first file is replaced, and it is the one that is looked for
      rw [lookup_cons, if_pos hother]
    · -- it is replaced, and another one is looked for
      rw [lookup_cons, lookup_cons, hfirst, if_neg hother, if_neg hother]
    · -- the file is further down, and is the one that is looked for
      rw [lookup_cons, ih, if_pos hother, if_neg (hother ▸ Ne.symm hfirst)]
    · -- neither is it the first
      rw [lookup_cons, lookup_cons, ih, if_neg hother]

/-! ### Messages -/

/-- A disk behind a message on the standard error output. -/
def warn (disk : Disk) (text : String) : Disk :=
  { disk with warned := disk.warned ++ text }

/-- No message is the empty one. -/
theorem warn_empty (disk : Disk) : disk.warn "" = disk := by
  rw [warn, String.append_empty]

/-- Two messages are one. -/
theorem warn_warn (disk : Disk) (first second : String) :
    (disk.warn first).warn second = disk.warn (first ++ second) := by
  simp [warn, String.append_assoc]

/-- Messages do not change where files can be written. -/
theorem admits_warn (text : String) :
    (disk.warn text).Admits path place ↔ disk.Admits path place :=
  Iff.rfl

end Disk

/-- What is found in an input. -/
def Input.contents (input : Input) (disk : Disk) : Except SystemError (List UInt8) :=
  match input with
  | standard => .ok disk.input
  | file path => disk.read path

/-- Reading an input changes nothing. -/
theorem Input.run_read (input : Input) (disk : Disk) :
    (input.read Disk.system).run disk = (input.contents disk, disk) := by
  cases input <;> rfl

/-! ### Jobs -/

/-- The image of a source that is given by its bytes. -/
def Assembles (bytes : List UInt8) (image : Image) : Prop :=
  ∃ assembly, assemble (String.ofList (Text.decodeLatin1 bytes)) .empty = .ok assembly ∧
    assembly.outcome = .ok image

variable {bytes : List UInt8} {image image' : Image}

/-- The image of a source is what assembly has come to. -/
theorem assembles_iff {assembly : Assembly}
    (h : assemble (String.ofList (Text.decodeLatin1 bytes)) .empty = .ok assembly) :
    Assembles bytes image ↔ assembly.outcome = .ok image := by
  rw [Assembles, h]
  exact ⟨fun ⟨_, hassembly, houtcome⟩ => Except.ok.inj hassembly ▸ houtcome,
    fun houtcome => ⟨assembly, rfl, houtcome⟩⟩

/-- A source has one image at most. -/
theorem Assembles.unique (h : Assembles bytes image) (h' : Assembles bytes image') :
    image = image' := by
  obtain ⟨assembly, hassemble, houtcome⟩ := h
  exact Except.ok.inj (houtcome.symm.trans ((assembles_iff hassemble).mp h'))

/-- A source has an image exactly if no error is found in it. -/
theorem exists_assembles_iff (bytes : List UInt8) : (∃ image, Assembles bytes image) ↔
    ∃ assembly, assemble (String.ofList (Text.decodeLatin1 bytes)) .empty = .ok assembly ∧
      assembly.diagnostics.errorCount = 0 := by
  obtain ⟨assembly, findings, added, hassemble, hrun, hadded, hdiagnostics⟩ :=
    Assembly.completes_assemble (String.ofList (Text.decodeLatin1 bytes)) .empty
  have hcount : assembly.diagnostics.errorCount =
      (findings.flatMap Assembly.Finding.notices).countP Notice.isError := by
    rw [assembly.diagnostics.errorCount_eq, hdiagnostics, Diagnostics.entries_foldl_add,
      ← hadded.countP_eq]
    rfl
  simp only [assembles_iff hassemble, hassemble, Except.ok.injEq, exists_eq_left', hcount]
  exact hrun.accounted.exists_image_iff

namespace Job

/-- Whether a job can be done on a disk: its input can be read, it assembles, and there is a place
    for the image. -/
def Succeeds (job : Job) (disk : Disk) (image : Image) (place : Place) : Prop :=
  ∃ bytes, job.input.contents disk = .ok bytes ∧ Assembles bytes image ∧
    disk.Admits job.output place

/-- A job can be done in one way at most. -/
theorem Succeeds.unique {job : Job} {disk : Disk} {place place' : Place}
    (h : job.Succeeds disk image place) (h' : job.Succeeds disk image' place') :
    image = image' ∧ place = place' := by
  obtain ⟨bytes, hbytes, himage, hlocate, -⟩ := h
  obtain ⟨bytes', hbytes', himage', hlocate', -⟩ := h'
  obtain rfl := Except.ok.inj (hbytes.symm.trans hbytes')
  exact ⟨himage.unique himage', (Prod.mk.inj (Except.ok.inj (hlocate.symm.trans hlocate'))).1⟩

/-- The two ways in which a job ends. -/
inductive Ends (job : Job) (disk : Disk) : UInt32 × Disk → Prop
  /-- The image is written. -/
  | written {image : Image} {place : Place} {after : Disk} (hdone : job.Succeeds disk image place)
      (hfiles : after.files = Disk.replace place (job.imageBytes image) disk.files) :
      Ends job disk (0, after)
  /-- Nothing is written. -/
  | failed {code : UInt32} {after : Disk} (hcode : code ≠ 0)
      (hnone : ∀ image place, ¬ job.Succeeds disk image place) (hfiles : after.files = disk.files) :
      Ends job disk (code, after)

variable {job : Job} {disk : Disk}

/-- What is found is only shown. -/
theorem exists_run_showFindings (job : Job) (disk : Disk) (assembly : Assembly) :
    ∃ text, (job.showFindings Disk.system assembly).run disk = ((), disk.warn text) := by
  unfold showFindings
  dsimp only
  split_ifs
  · exact ⟨"", congrArg _ disk.warn_empty.symm⟩
  · exact ⟨_, rfl⟩
  · exact ⟨_, rfl⟩
  · exact ⟨_, congrArg _ (disk.warn_warn _ _)⟩

/-- An image is written, or it cannot be. -/
theorem exists_run_writeOutput (job : Job) (disk : Disk) (diagnostics : Diagnostics)
    (image : Image) :
    ∃ text, (job.writeOutput Disk.system diagnostics image).run disk =
      match disk.write job.output (job.imageBytes image) with
      | .error _ => (1, disk.warn text)
      | .ok after => (0, after.warn text) := by
  unfold writeOutput
  rw [StateT.run_bind, Disk.run_writeImage]
  cases disk.write job.output (job.imageBytes image) with
  | error error => exact ⟨_, rfl⟩
  | ok after => exact ⟨_, rfl⟩

/-- A job is done with the image of what its input holds. -/
theorem succeeds_iff {place : Place} (hbytes : job.input.contents disk = .ok bytes) :
    job.Succeeds disk image place ↔ Assembles bytes image ∧ disk.Admits job.output place := by
  constructor
  · rintro ⟨bytes', hbytes', hdone⟩
    obtain rfl := Except.ok.inj (hbytes.symm.trans hbytes')
    exact hdone
  · exact fun hdone => ⟨bytes, hbytes, hdone⟩

/-- Assembly fails, or its image is written. -/
theorem ends_assembleBytes (hbytes : job.input.contents disk = .ok bytes) :
    job.Ends disk ((job.assembleBytes Disk.system bytes).run disk) := by
  unfold assembleBytes
  cases hassemble : assemble (String.ofList (Text.decodeLatin1 bytes)) .empty with
  | error breach =>
    -- a breach: there is no image
    refine .failed (by decide) (fun image place hdone => ?_) rfl
    obtain ⟨⟨assembly, hassemble', -⟩, -⟩ := (succeeds_iff hbytes).mp hdone
    cases hassemble.symm.trans hassemble'
  | ok assembly =>
    obtain ⟨shown, hshown⟩ := exists_run_showFindings job disk assembly
    dsimp only
    -- what is shown goes to the standard error output only
    rw [StateT.run_bind, hshown]
    cases houtcome : assembly.outcome with
    | error failure =>
      refine .failed (by decide) (fun image place hdone => ?_) rfl
      have himage := ((succeeds_iff hbytes).mp hdone).1
      cases houtcome.symm.trans ((assembles_iff hassemble).mp himage)
    | ok image =>
      obtain ⟨text, htext⟩ :=
        exists_run_writeOutput job (disk.warn shown) assembly.diagnostics image
      show job.Ends disk
        ((job.writeOutput Disk.system assembly.diagnostics image).run (disk.warn shown))
      rw [htext]
      cases hwrite : (disk.warn shown).write job.output (job.imageBytes image) with
      | error error =>
        -- the path admits no file
        refine .failed (by decide) (fun image' place hdone => ?_) rfl
        obtain ⟨-, hadmits⟩ := (succeeds_iff hbytes).mp hdone
        have hshown := (Disk.admits_warn shown).mpr hadmits
        cases hwrite.symm.trans (Disk.write_eq_ok_iff.mpr ⟨place, hshown, rfl⟩)
      | ok after =>
        -- the image is where the path leads, and nothing else has been written
        obtain ⟨place, hshown, rfl⟩ := Disk.write_eq_ok_iff.mp hwrite
        have hadmits := (Disk.admits_warn shown).mp hshown
        have himage := (assembles_iff hassemble).mpr houtcome
        exact .written ((succeeds_iff hbytes).mpr ⟨himage, hadmits⟩) rfl

/-- **A job is done or leaves all files alone.** -/
theorem ends_run (job : Job) (disk : Disk) :
    job.Ends disk ((job.run Disk.system).run disk) := by
  unfold run
  rw [StateT.run_bind, Input.run_read]
  cases hbytes : job.input.contents disk with
  | error error =>
    refine .failed (by decide) (fun image place hdone => ?_) rfl
    obtain ⟨bytes, hbytes', -⟩ := hdone
    cases hbytes.symm.trans hbytes'
  | ok bytes => exact ends_assembleBytes hbytes

end Job

/-! ### The command -/

/-- The exit status of the command on a disk, and the disk behind it. -/
def Disk.after (disk : Disk) (arguments : List String) : UInt32 × Disk :=
  (run Disk.system arguments).run disk

/-- A command that is not asked to assemble anything only says something. -/
theorem files_after {arguments : List String} {disk : Disk}
    (h : ∀ job, Request.ofArguments arguments ≠ .ok (.assemble job)) :
    (disk.after arguments).2.files = disk.files := by
  unfold Disk.after run
  cases hrequest : Request.ofArguments arguments with
  | error error => rfl
  | ok request =>
    cases request with
    | assemble job => exact absurd hrequest (h job)
    | showVersion => rfl
    | showHelp => rfl

/-- The image of a source with a string of bytes. -/
theorem assembles_stringSourceBytes (bytes : List UInt8) :
    Assembles (stringSourceBytes bytes)
      ⟨0x3000#16 :: bytes.map (fun byte => BitVec.ofNat 16 byte.toNat) ++ [0#16]⟩ := by
  obtain ⟨assembly, hassemble, houtcome⟩ :=
    Assembly.exists_assemble_string (Text.decodeLatin1 bytes) .empty
  rw [stringWords_decodeLatin1] at houtcome
  rw [Assembles, decodeLatin1_stringSourceBytes]
  exact ⟨assembly, hassemble, houtcome⟩

/-- **The command writes only when it succeeds.** When it is asked to assemble a source, it exits
    with 0 exactly if the source can be read, it assembles, and there is a place for the image. Then
    the image is found at this place, in the format that was asked for, and everything else is as it
    was before. In every other case no file is created or changed. A source assembles exactly if no
    error is found in it. In particular, a source with a string of any bytes assembles to its
    address, the bytes, and a zero. -/
theorem writes_only_on_success (arguments : List String) (disk : Disk) :
    (∀ job, Request.ofArguments arguments = .ok (.assemble job) →
      ((disk.after arguments).1 = 0 ↔ ∃ image place, job.Succeeds disk image place) ∧
      ∀ image place, job.Succeeds disk image place → ∀ other,
        (disk.after arguments).2.contents? other =
          if other = place then some (job.imageBytes image) else disk.contents? other) ∧
    ((∀ job, Request.ofArguments arguments = .ok (.assemble job) →
        ∀ image place, ¬ job.Succeeds disk image place) →
      (disk.after arguments).2.files = disk.files) ∧
    ∀ bytes,
      ((∃ image, Assembles bytes image) ↔
        ∃ assembly, assemble (String.ofList (Text.decodeLatin1 bytes)) .empty = .ok assembly ∧
          assembly.diagnostics.errorCount = 0) ∧
      Assembles (stringSourceBytes bytes)
        ⟨0x3000#16 :: bytes.map (fun byte => BitVec.ofNat 16 byte.toNat) ++ [0#16]⟩ := by
  have hjob : ∀ job, Request.ofArguments arguments = .ok (.assemble job) →
      job.Ends disk (disk.after arguments) := by
    intro job hrequest
    have hends := job.ends_run disk
    unfold Disk.after run
    rwa [hrequest]
  refine ⟨fun job hrequest => ?_, fun hnone => ?_, fun bytes =>
    ⟨exists_assembles_iff bytes, assembles_stringSourceBytes bytes⟩⟩
  · -- a job that succeeds does so with one image, in one place
    have hends := hjob job hrequest
    generalize disk.after arguments = ended at hends
    cases hends with
    | @written image place after hdone hfiles =>
      refine ⟨iff_of_true rfl ⟨image, place, hdone⟩, fun image' place' hdone' other => ?_⟩
      obtain ⟨rfl, rfl⟩ := hdone.unique hdone'
      rw [Disk.contents?, hfiles, Disk.lookup_replace, Disk.contents?]
    | failed hcode hnone =>
      exact ⟨iff_of_false hcode fun ⟨image, place, hdone⟩ => hnone image place hdone,
        fun image place hdone => absurd hdone (hnone image place)⟩
  · -- asked for something else, the command only says something
    by_cases hrequest : ∃ job, Request.ofArguments arguments = .ok (.assemble job)
    · obtain ⟨job, hrequest⟩ := hrequest
      have hends := hjob job hrequest
      generalize disk.after arguments = ended at hends
      cases hends with
      | written hdone => exact absurd hdone (hnone job hrequest _ _)
      | failed _ _ hfiles => exact hfiles
    · exact files_after fun job h => hrequest ⟨job, h⟩

/-- A disk with an image of an earlier source, and with another source on the standard input. -/
def Disk.stale : Disk :=
  .ofFolder [("a.obj", [0xFF])] (stringSourceBytes [0x22, 0xE9, 0x0D, 0x00])

/-- The image of a source with a quote, a letter beyond ASCII, a carriage return and a null
    character replaces an earlier image, but not when its path is that of a directory. -/
theorem writes_only_on_success_stale :
    (Disk.stale.after ["-", "a.obj"]).1 = 0 ∧
      (Disk.stale.after ["-", "a.obj"]).2.contents? (Disk.workplace ++ ["a.obj"]) =
        some [0x30, 0x00, 0x00, 0x22, 0x00, 0xE9, 0x00, 0x0D, 0x00, 0x00, 0x00, 0x00] ∧
      (Disk.stale.after ["-", "a.obj/"]).2.files = Disk.stale.files := by
  obtain ⟨hwrites, -, hassembles⟩ := writes_only_on_success ["-", "a.obj"] Disk.stale
  obtain ⟨-, hkeeps, -⟩ := writes_only_on_success ["-", "a.obj/"] Disk.stale
  obtain ⟨hcode, hcontents⟩ := hwrites ⟨.standard, "a.obj", false, 0⟩ rfl
  have hdone : Job.Succeeds ⟨.standard, "a.obj", false, 0⟩ Disk.stale _
      (Disk.workplace ++ ["a.obj"]) :=
    ⟨_, rfl, (hassembles [0x22, 0xE9, 0x0D, 0x00]).2, rfl, rfl⟩
  refine ⟨hcode.mpr ⟨_, _, hdone⟩, ?_, hkeeps fun job hrequest image place hdone => ?_⟩
  · rw [hcontents _ _ hdone, if_pos rfl]
    rfl
  · -- a path that is closed by a slash admits nothing
    have hjob : job = ⟨.standard, "a.obj/", false, 0⟩ := by
      have hparsed : Request.ofArguments ["-", "a.obj/"] =
          .ok (.assemble ⟨.standard, "a.obj/", false, 0⟩) := rfl
      exact Request.assemble.inj (Except.ok.inj (hrequest.symm.trans hparsed))
    subst hjob
    obtain ⟨-, -, -, hlocate, -⟩ := hdone
    have hclosed : Disk.stale.locate "a.obj/" = .ok (Disk.workplace ++ ["a.obj"], true) := rfl
    cases hclosed.symm.trans hlocate

end LC3.Command
