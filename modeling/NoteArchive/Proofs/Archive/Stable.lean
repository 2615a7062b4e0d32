import NoteArchive.Proofs.Archive.Repeat

/-!
# The same batch again

* `exists_run_again`: a batch that came to its end comes to its end once more, on what it left.
* `runIn_move_of_absolute`: a note with an absolute destination stays where it is.
* `same_of_no_target`: without a target folder every destination is absolute, so a batch changes
  nothing.
* `stable_of_calm_batch`: whatever the settings are, the same batch again moves nothing and leaves
  all as it is.
-/

namespace NoteArchive

open Act Vault

variable {v : Vault} {b : Batch} {n : Note} {D : String} {notes : List Note} {t : Tally}
  {w w' w₁ : World} {label : String}

namespace Batch

/-! ## The second batch comes to its end -/

/-- No file came in the way of the target folder, so it can be made again. -/
theorem exists_run_again (label' : String) (hne : b.settings.targetFolder ≠ "")
    (ht : w.disk.IsTree) (hroot : w.disk.get? v.place = some .folder) (hw : w.Calm)
    (h : (b.run v label (v.notesOn w.disk)).runIn w = (.ok t, w')) (hsame : w₁.disk = w'.disk)
    (hw₁ : w₁.Calm) :
    ∃ t' w₁', (b.run v label' (v.notesOn w₁.disk)).runIn w₁ = (.ok t', w₁') := by
  have hl := lists_notesOn ht v
  obtain ⟨hr, moved, failed, hP, hJ⟩ := judged_of_run hne ht hroot hw hl h
  rw [← hsame] at hP hJ
  have hR := hP.reached (List.append_nil _).symm hJ.isOpen
  rw [run] at h
  obtain ⟨_, w₂, hensure, -⟩ := runIn_bind_ok h
  have hfiles : ∀ more, more <+: (Path.ofString b.settings.targetFolder).parts →
      w₁.disk.IsFile (v.place ++ more) → w.disk.IsFile (v.place ++ more) :=
    fun more hp => (isFile_iff_of_leads hr hl hR ⟨_, List.mem_cons_self, hp⟩).1
  obtain ⟨w₂', hensure'⟩ := runIn_ensureFolder_again ht hP.carries.isTree hw₁
    hP.carries.longestPath_eq (hP.carries.folder hroot) hfiles hensure
  exact exists_run_of_ensureFolder hP.carries.isTree (lists_notesOn hP.carries.isTree v) hensure'
    label'

/-! ## No target folder -/

/-- A note with an absolute destination stays where it is: no folder can be made for it. -/
theorem runIn_move_of_absolute (h : (Path.ofString D).mark ≠ "") (w : World) :
    ∃ e, (Batch.move v n D).runIn w = (.error e, w) := by
  have habove : (Path.ofString (Path.ofString D).parent.text).mark ≠ "" :=
    Path.mark_text_ne_empty h _
  exact ⟨_, by rw [Batch.move, runIn_bind_of_error (runIn_ensureFolder_of_absolute habove w)]⟩

/-- Without a target folder a destination begins with the slash behind it. -/
theorem Plans.mark_ne_empty (htarget : b.settings.targetFolder = "") (hp : b.Plans (n, D)) :
    (Path.ofString D).mark ≠ "" := by
  obtain ⟨date, -, -, -, -, hD⟩ := hp.date
  have hD : D = destinationFor n date b.settings := hD
  rw [Path.ofString_mark, ne_eq, Path.markOf_eq_empty_iff, not_not, hD, toList_destinationFor,
    htarget]
  rfl

theorem same_of_step (htarget : b.settings.targetFolder = "") {r : Except Failure Tally}
    (h : (b.step v label t n).runIn w = (r, w')) :
    ∃ t', r = .ok t' ∧ t'.moved = t.moved ∧ w'.disk = w.disk := by
  by_cases hp : ∃ D, b.Plans (n, D)
  · obtain ⟨D, hp⟩ := hp
    obtain ⟨w₀, r₁, w₂, hbefore, hmove, hafter, hcases⟩ := step_of_plans hp h
    obtain ⟨e, he⟩ := runIn_move_of_absolute (v := v) (n := n) (hp.mark_ne_empty htarget) w₀
    rw [he] at hmove
    cases hmove
    rcases hcases with ⟨hok, -⟩ | ⟨e, -, rfl⟩
    · cases hok
    · exact ⟨_, rfl, rfl, hafter.disk.trans hbefore.disk⟩
  · obtain ⟨hagrees, t', hr, ho⟩ := step_of_not_plans (fun D hD => hp ⟨D, hD⟩) h
    refine ⟨t', hr, ?_, hagrees.disk⟩
    cases ho with
    | passed hc => rfl
    | left hc hv => rfl

theorem same_of_runFrom (htarget : b.settings.targetFolder = "") (label : String)
    (notes : List Note) (t : Tally) (w : World) :
    ∃ t' w', (b.runFrom v label t notes).runIn w = (.ok t', w') ∧ t'.moved = t.moved ∧
      w'.disk = w.disk := by
  induction notes generalizing t w with
  | nil => exact ⟨t, w, rfl, rfl, rfl⟩
  | cons n rest ih =>
    rcases hstep : (b.step v label t n).runIn w with ⟨r, w₁⟩
    obtain ⟨t₁, rfl, hmoved₁, hd₁⟩ := same_of_step htarget hstep
    obtain ⟨t', w', hrun, hmoved, hd⟩ := ih t₁ w₁
    rw [runFrom, runIn_bind_of_ok hstep]
    exact ⟨t', w', hrun, hmoved.trans hmoved₁, hd.trans hd₁⟩

/-- Without a target folder a batch comes to its end and changes nothing. -/
theorem same_of_no_target (htarget : b.settings.targetFolder = "") (label : String)
    (notes : List Note) (w : World) :
    ∃ t w', (b.run v label notes).runIn w = (.ok t, w') ∧ t.moved = 0 ∧ w'.disk = w.disk := by
  have hensure : (v.ensureFolder b.settings.targetFolder).runIn w = (.ok (), w) := by
    have hsteps : (Path.ofString "").steps = [] := by decide +kernel
    rw [htarget, ensureFolder, hsteps]
    rfl
  obtain ⟨t, w', hrun, hmoved, hd⟩ := same_of_runFrom (v := v) htarget label notes {} w
  rw [run, runIn_bind_of_ok hensure, runIn_bind_of_ok hrun]
  exact ⟨t, _, rfl, hmoved, hd⟩

end Batch

/-! ## Any settings -/

/-- Whatever the settings are: where a batch of all files of a vault came to its end and nothing
failed from outside, the same batch again comes to its end, moves nothing, and leaves all as it
is. -/
theorem stable_of_calm_batch (v : Vault) (b : Batch) (label label' : String) (w w' w₁ : World)
    (t : Tally) (ht : w.disk.IsTree) (hroot : w.disk.get? v.place = some .folder) (hw : w.Calm)
    (h : (b.run v label (v.notesOn w.disk)).runIn w = (.ok t, w')) (hsame : w₁.disk = w'.disk)
    (hw₁ : w₁.Calm) :
    ∃ t' w₁', (b.run v label' (v.notesOn w₁.disk)).runIn w₁ = (.ok t', w₁') ∧ t'.moved = 0 ∧
      ∀ p, w₁'.disk.get? p = w₁.disk.get? p := by
  by_cases htarget : b.settings.targetFolder = ""
  · obtain ⟨t', w₁', hrun, hmoved, hd⟩ :=
      Batch.same_of_no_target (v := v) htarget label' (v.notesOn w₁.disk) w₁
    exact ⟨t', w₁', hrun, hmoved, fun p => by rw [hd]⟩
  · obtain ⟨t', w₁', hrun⟩ := Batch.exists_run_again label' htarget ht hroot hw h hsame hw₁
    exact ⟨t', w₁', hrun, Batch.same_of_run_again htarget ht hroot hw h hsame hw₁ hrun⟩

/-- A target folder that is not written in the usual way: the note that was moved is tried again,
and so is the one of the same name that had to stay. -/
theorem stable_of_pointed_target :
    let v : Vault := ⟨⟨"/", ["v"]⟩, ["v"]⟩
    let w : World := .ofDisk
      { entries := [(["v"], .folder), (["v", "05-03-2021.md"], .file [97]), (["v", "b"], .folder),
          (["v", "b", "05-03-2021.md"], .file [98])] }
    let b : Batch := ⟨{ Settings.usual with targetFolder := "./A" },
      DateFormat.compileResolved DateFormat.usual, ⟨2024, 1, 1⟩⟩
    w.disk.IsTree ∧ w.disk.get? v.place = some .folder ∧ w.Calm ∧
      ∃ t w', (b.run v Batch.usualLabel (v.notesOn w.disk)).runIn w = (.ok t, w') ∧
        t.moved = 1 ∧ t.failed = 1 ∧
        ∃ t' w₁', (b.run v Batch.usualLabel (v.notesOn w'.disk)).runIn (.ofDisk w'.disk) =
          (.ok t', w₁') ∧ t'.moved = 0 ∧ ∀ p, w₁'.disk.get? p = w'.disk.get? p := by
  intro v w b
  have ht : w.disk.IsTree := by decide
  have hnotes : v.notesOn w.disk =
      ["05-03-2021.md", "b/05-03-2021.md"].map (Note.ofPath "05-03-2021.md") := by
    rw [notesOn_of_pairwise (by decide +kernel)]
    decide +kernel
  have hcounts : ((b.run v Batch.usualLabel (v.notesOn w.disk)).runIn w).1.toOption.map
      (fun t => (t.moved, t.failed)) = some (1, 1) := by
    rw [hnotes]
    decide +kernel
  rcases hrun : (b.run v Batch.usualLabel (v.notesOn w.disk)).runIn w with ⟨e | t, w'⟩ <;>
    rw [hrun] at hcounts
  · cases hcounts
  · obtain ⟨hmoved, hfailed⟩ := Prod.mk.inj (Option.some.inj hcounts)
    exact ⟨ht, rfl, rfl, t, w', rfl, hmoved, hfailed,
      stable_of_calm_batch v b Batch.usualLabel Batch.usualLabel w w' (.ofDisk w'.disk) t ht rfl rfl
        hrun rfl rfl⟩

end NoteArchive
