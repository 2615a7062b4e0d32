import NoteArchive.Proofs.Archive.Preservation

/-!
# The folder of earlier times

* `Note.isLegacy`: a note lies in the folder where notes went in earlier times.
* `of_work_of_settings`: the work of an operation from its settings on.
* `work_eq_of_legacy`: where all candidates lie in this folder, both operations come to the same.

At the end relocating is archiving of the notes in this folder alone.
-/

namespace NoteArchive

open Act Vault

variable {v : Vault} {n : Note}

/-! ## The folder -/

/-- The path of a note begins with the folder of earlier times. -/
def Note.isLegacy (n : Note) : Bool := "Old Daily Notes/".toList.isPrefixOf n.path.toList

theorem Operation.concerns_relocate (n : Note) : Operation.relocate.concerns n = n.isLegacy := by
  have hfolder : (Settings.legacyFolder.toList.reverse.dropWhile (· = '/')).reverse ++ ['/'] =
      "Old Daily Notes/".toList := by decide +kernel
  rw [concerns, isUnderFolder]
  exact congrArg (List.isPrefixOf · n.path.toList) hfolder

/-- Such a note is somewhere below this folder. -/
theorem legacyFolder_prefix_placeOf (h : n.isLegacy = true) :
    v.place ++ ["Old Daily Notes"] <+: v.placeOf n.path := by
  obtain ⟨rest, hpath⟩ := List.isPrefixOf_iff_prefix.1 h
  have hslash : "Old Daily Notes/".toList = "Old Daily Notes".toList ++ ['/'] := by decide +kernel
  have hpart : Path.IsPart "Old Daily Notes" := ⟨by decide, by decide, by decide⟩
  have hparts : (Path.ofString n.path).parts = "Old Daily Notes" :: Path.components rest := by
    show Path.components n.path.toList = _
    rw [← hpath, hslash, List.append_assoc, List.singleton_append, Path.components_append_slash,
      Path.components_of_isPart hpart]
    rfl
  refine ⟨Path.components rest, ?_⟩
  rw [placeOf, hparts, List.append_assoc]
  rfl

namespace Operation

variable {op : Operation} {day : Date} {around : Nat} {w w' : World} {s : Settings}
  {r : Except Failure Tally}

/-! ## The work -/

/-- Unless the listing fails from outside, this is the batch of the files in the vault, if they can
be listed. -/
theorem of_work_of_settings (ht : w.disk.IsTree) (hs : settingsIn v around w = .ok s)
    (hlist : w.intrusions.listing = []) (h : (op.work v day around).runIn w = (r, w')) :
    (v.IsListable w.disk ∧
        ∃ w₁, ((batch s day).run v op.label ((v.notesOn w.disk).filter op.concerns)).runIn
          { w with disk := v.savedOn w.disk s.fileBytes } = (r, w₁) ∧ w₁.Agrees w') ∨
      (¬ v.IsListable w.disk ∧ r.toOption = none ∧
        w'.disk = v.savedOn w.disk s.fileBytes) := by
  rcases settingsIn_cases v around w with ⟨e, w₁, hset⟩ | ⟨s', w₁, hset⟩
  · rw [hset.settings] at hs
    cases hs
  · obtain rfl : s = s' := Except.ok.inj (hs.symm.trans hset.settings)
    obtain ⟨hroot, hlike⟩ := hset.saved ht
    have ha := hlike.toAgrees
    have hturns : w₁.intrusions.turns .listing = [] := by
      rw [ha.intrusions]
      exact hlist
    have hlistable : v.IsListable w₁.disk ↔ v.IsListable w.disk := by
      rw [ha.disk]
      exact isListable_savedOn_iff ht hroot _
    rw [hset.work] at h
    rcases runIn_notes_of_turns hturns with ⟨hlists, hnotes⟩ | ⟨place, hplace, htakes, hnotes⟩
    · rw [runIn_bind_of_ok hnotes, ha.disk, notesOn_savedOn ht hroot] at h
      obtain ⟨w₂, hrun, ha₂⟩ := (Batch.agrees_run v _ _ rfl).of_runIn ha.symm h
      exact Or.inl ⟨hlistable.1 hlists, w₂, hrun, ha₂.symm⟩
    · rw [runIn_bind_of_error hnotes] at h
      cases h
      refine Or.inr ⟨fun hlists => ?_, rfl, ha.disk⟩
      rw [hlistable.2 hlists place hplace] at htakes
      cases htakes

/-- Where all candidates lie in the folder of earlier times, both operations come to the same. -/
theorem work_eq_of_legacy (ht : w.disk.IsTree)
    (hall : ∀ s, settingsIn v around w = .ok s → ∀ n ∈ v.notesOn w.disk,
      isCandidate (DateFormat.compileResolved s.dateFormat) n = true → n.isLegacy = true)
    (h : (Operation.relocate.work v day around).runIn w = (r, w')) :
    ∃ w₁, (Operation.archive.work v day around).runIn w = (r, w₁) ∧ w'.Agrees w₁ := by
  rcases settingsIn_cases v around w with ⟨e, w₁, hset⟩ | ⟨s, w₁, hset⟩
  · rw [hset.work] at h ⊢
    cases h
    exact ⟨w', rfl, .refl w'⟩
  · obtain ⟨hroot, hlike⟩ := hset.saved ht
    rw [hset.work] at h ⊢
    rcases runIn_bind_cases h with ⟨notes, w₂, hnotes, hrun⟩ | ⟨e, hnotes, rfl⟩
    · rw [runIn_bind_of_ok hnotes]
      have hlist : notes = v.notesOn w.disk := by
        obtain ⟨-, -, -, ⟨-, hok⟩ | ⟨e, he⟩⟩ := of_notes hnotes
        · rw [Except.ok.inj hok, hlike.disk, notesOn_savedOn ht hroot]
        · cases he
      -- the files that are left out here are no candidates there
      have hsame : (batch s day).candidates (notes.filter Operation.relocate.concerns) =
          (batch s day).candidates (notes.filter Operation.archive.concerns) := by
        rw [Batch.candidates, Batch.candidates, List.filter_filter, List.filter_filter]
        refine List.filter_congr fun n hn => ?_
        rw [concerns_relocate, concerns]
        cases hc : isCandidate (batch s day).format n with
        | false => rfl
        | true => rw [hall s hset.settings n (hlist ▸ hn) hc]
      exact (Batch.agrees_run v _ _ hsame).of_runIn (.refl w₂) hrun
    · rw [runIn_bind_of_error hnotes]
      exact ⟨w', rfl, .refl w'⟩

/-- A run whose log can be opened has what its work comes to as the result. -/
theorem of_run_of_log {today : Option Date} {verbose : Bool} (ht : w.disk.IsTree)
    (hlog : ¬ (openLog verbose).Fails { w with notices := [] }) {r : Except Failure (Option Tally)}
    (h : (op.run v today verbose around).runIn w = (r, w')) :
    ∃ result w₁, (op.work v (Operation.day today (clockAt verbose w.clock)) around).runIn w =
        (result, w₁) ∧ r = .ok result.toOption ∧ w₁.Agrees w' := by
  rcases of_run ht h with ⟨e, hopen, -⟩ | ⟨-, -, result, w₁, -, hwork⟩
  · exact absurd ⟨e, congrArg Prod.fst hopen⟩ hlog
  · exact ⟨result, w₁, hwork⟩

/-- So do their runs, also where the log cannot be opened. -/
theorem run_eq_of_legacy {today : Option Date} {verbose : Bool} (ht : w.disk.IsTree)
    (hall : ∀ s, settingsIn v around w = .ok s → ∀ n ∈ v.notesOn w.disk,
      isCandidate (DateFormat.compileResolved s.dateFormat) n = true → n.isLegacy = true) :
    ((Operation.relocate.run v today verbose around).runIn w).1 =
        ((Operation.archive.run v today verbose around).runIn w).1 ∧
      ((Operation.relocate.run v today verbose around).runIn w).2.disk =
        ((Operation.archive.run v today verbose around).runIn w).2.disk := by
  rcases hr : (Operation.relocate.run v today verbose around).runIn w with ⟨r, w₁⟩
  rcases ha : (Operation.archive.run v today verbose around).runIn w with ⟨r', w₁'⟩
  rcases of_run ht hr with ⟨e, hopen, rfl⟩ | ⟨setup, w₂, result, w₃, hopen, hwork, rfl, hw₃⟩ <;>
    rcases of_run ht ha with
      ⟨e', hopen', rfl⟩ | ⟨setup', w₂', result', w₃', hopen', hwork', rfl, hw₃'⟩ <;>
    -- the log is opened for both, or for none of them
    rw [hopen] at hopen' <;> cases hopen'
  · exact ⟨rfl, rfl⟩
  · obtain ⟨w₄, hsame, hw₄⟩ := work_eq_of_legacy ht hall hwork
    rw [hwork'] at hsame
    cases hsame
    exact ⟨rfl, hw₃.disk.trans (hw₄.disk.symm.trans hw₃'.disk.symm)⟩

end Operation

/-- Relocating is archiving of the notes in the folder of earlier times alone.  Where no half of a
character is in the settings that were read, it comes to a batch of these notes with these settings,
on the disk to which they were written back, if the files can be listed.  A half ends it before, and
so does a vault that cannot be used or settings that cannot be read.  Whatever fails from outside,
files outside this folder stay, but for the settings file, and both operations come to the same
where all candidates lie in this folder. -/
theorem relocation_is_archiving_of_legacy_notes (v : Vault) (today : Option Date) (verbose : Bool)
    (around : Nat) (w : World) (ht : w.disk.IsTree) :
    let relocate := Operation.relocate.run v today verbose around
    let archive := Operation.archive.run v today verbose around
    let day := Operation.day today (Operation.clockAt verbose w.clock)
    (w.intrusions.listing = [] → ¬ (Operation.openLog verbose).Fails { w with notices := [] } →
      (∀ loaded, (v.checkRoot.runIn w).1 = .ok () →
        v.settingsOn w.disk (around + 3) = .ok loaded →
        (∀ s : Settings, loaded.raw.validated = s →
          (v.IsListable w.disk → ∀ label,
            let batch := ((Operation.batch s day).run v label
              ((v.notesOn w.disk).filter Note.isLegacy)).runIn
                { w with disk := v.savedOn w.disk s.fileBytes }
            (relocate.runIn w).1 = .ok batch.1.toOption ∧
              (relocate.runIn w).2.disk = batch.2.disk) ∧
          (¬ v.IsListable w.disk → (relocate.runIn w).1 = .ok none ∧
            (relocate.runIn w).2.disk = v.savedOn w.disk s.fileBytes)) ∧
        ∀ cut, loaded.raw.validated.fileBytes? = .error cut → (relocate.runIn w).1 = .ok none ∧
          (relocate.runIn w).2.disk = v.savedOn w.disk cut.written) ∧
      ((∃ e, (v.checkRoot.runIn w).1 = .error e ∨
          v.settingsOn w.disk (around + 3) = .error e) →
        (relocate.runIn w).1 = .ok none ∧ (relocate.runIn w).2.disk = w.disk)) ∧
    (∀ p, w.disk.IsFile p → p ≠ v.settingsFile.place → ¬ v.place ++ ["Old Daily Notes"] <+: p →
      (relocate.runIn w).2.disk.get? p = w.disk.get? p) ∧
    ((∀ s, Operation.settingsIn v around w = .ok s → ∀ n ∈ v.notesOn w.disk,
        isCandidate (DateFormat.compileResolved s.dateFormat) n = true → n.isLegacy = true) →
      (relocate.runIn w).1 = (archive.runIn w).1 ∧
        (relocate.runIn w).2.disk = (archive.runIn w).2.disk) := by
  intro relocate archive day
  refine ⟨fun hlist hlog => ?_, fun p hp hne hout => ?_, Operation.run_eq_of_legacy ht⟩
  · rcases hrun : relocate.runIn w with ⟨r, w'⟩
    obtain ⟨result, w₁, hwork, rfl, ha⟩ := Operation.of_run_of_log ht hlog hrun
    -- without settings the work ends in the world where this is known
    have hnone : ∀ {e w₂}, Operation.Unsettled v around w e w₂ →
        result.toOption = none ∧ w'.disk = w₂.disk := by
      intro e w₂ hset
      rw [hset.work] at hwork
      cases hwork
      exact ⟨rfl, ha.disk⟩
    refine ⟨fun loaded hroot hload => ⟨fun s hs => ?_, fun cut hcut => ?_⟩, fun hunread => ?_⟩
    · have hcheck := Vault.runIn_checkRoot_of_ok hroot
      have hsettings := Operation.settingsIn_of_plain hcheck hload hs
      rcases Operation.of_work_of_settings ht hsettings hlist hwork with
        ⟨hlists, w₂, hbatch, ha₂⟩ | ⟨hno, hresult, hdisk⟩
      · refine ⟨fun _ label => ?_, fun hno => absurd hlists hno⟩
        rw [List.filter_congr fun n _ => Operation.concerns_relocate n] at hbatch
        obtain ⟨w₃, hbatch, ha₃⟩ := (Batch.agrees_run v _ label rfl).of_runIn (.refl _) hbatch
        rw [hbatch]
        exact ⟨rfl, (ha₂.trans ha).disk.trans ha₃.disk.symm⟩
      · exact ⟨fun hlists => absurd hlists hno, fun _ =>
          ⟨congrArg Except.ok hresult, ha.disk.trans hdisk⟩⟩
    · have hcheck := Vault.runIn_checkRoot_of_ok hroot
      obtain ⟨w₂, hset, hlike⟩ := Operation.unsettled_of_cut ht hcheck hload hcut
      obtain ⟨hresult, hdisk⟩ := hnone hset
      exact ⟨congrArg Except.ok hresult, hdisk.trans hlike.disk⟩
    · obtain ⟨e, hset⟩ := Operation.unsettled_of_unread hunread
      obtain ⟨hresult, hdisk⟩ := hnone hset
      exact ⟨congrArg Except.ok hresult, hdisk⟩
  · rcases hrun : relocate.runIn w with ⟨r, w'⟩
    rcases Operation.run_cases ht hrun with ⟨-, hd⟩ | ⟨result, -, hcome⟩
    · exact congrArg (·.get? p) hd
    · refine Operation.get?_of_outcome_of_place ht hcome hp hne fun loaded _ n _ hn heq => ?_
      rw [Operation.concerns_relocate] at hn
      exact absurd (heq ▸ legacyFolder_prefix_placeOf hn) hout

/-- A note and another file in the folder of earlier times, and a file in a folder whose name begins
in the same way: the note goes to the target folder, whichever operation is run. -/
theorem relocation_is_archiving_of_one_note :
    let v : Vault := ⟨⟨"/", ["v"]⟩, ["v"]⟩
    let w : World := .ofDisk
      { entries := [(["v"], .folder), (["v", ".daily_note_mover"], .folder),
          (["v", ".daily_note_mover", "data.json"],
            .file (Text.Utf8.encode "\x7b\"target_folder\": \"Archive\"\x7d".toList)),
          (["v", "Old Daily Notes 2"], .folder),
          (["v", "Old Daily Notes 2", "plan.md"], .file [99]),
          (["v", "Old Daily Notes"], .folder),
          (["v", "Old Daily Notes", "05-03-2021.md"], .file [97]),
          (["v", "Old Daily Notes", "plan.md"], .file [98])] }
    let relocate := Operation.relocate.run v (some ⟨2024, 1, 1⟩) false
    let archive := Operation.archive.run v (some ⟨2024, 1, 1⟩) false
    w.disk.IsTree ∧
      (relocate.runIn w).1.toOption.join.map (fun t => (t.found, t.moved)) = some (1, 1) ∧
      (relocate.runIn w).2.disk.get? ["v", "Archive", "05-03-2021.md"] = some (.file [97]) ∧
      (relocate.runIn w).2.disk.get? ["v", "Old Daily Notes 2", "plan.md"] = some (.file [99]) ∧
      (relocate.runIn w).1 = (archive.runIn w).1 ∧
      (relocate.runIn w).2.disk = (archive.runIn w).2.disk := by
  intro v w relocate archive
  have ht : w.disk.IsTree := by decide
  have hlog : ¬ (Operation.openLog false).Fails { w with notices := [] } := by
    rintro ⟨e, he⟩
    cases he
  have hnotes : v.notesOn w.disk = [
      .ofPath "plan.md" "Old Daily Notes 2/plan.md",
      .ofPath "05-03-2021.md" "Old Daily Notes/05-03-2021.md",
      .ofPath "plan.md" "Old Daily Notes/plan.md"] := by
    rw [notesOn_of_pairwise (by decide +kernel)]
    decide +kernel
  have hlists : v.IsListable w.disk := by
    rw [IsListable]
    decide +kernel
  have hroot : v.checkRoot.runIn w = (.ok (), w) :=
    Vault.runIn_checkRoot_of_ok (eq_ok_of_toOption (by decide +kernel))
  have hread : (v.settingsOn w.disk 3).toOption.map Loaded.raw =
      some (Settings.raw { targetFolder := "Archive" }) := by decide +kernel
  have hvalid : Settings.validated { targetFolder := "Archive" } =
      { targetFolder := "Archive" } := by decide +kernel
  obtain ⟨hends, hstay, hsame⟩ :=
    relocation_is_archiving_of_legacy_notes v (some ⟨2024, 1, 1⟩) false 0 w ht
  rcases hload : v.settingsOn w.disk 3 with e | loaded <;> rw [hload] at hread
  · cases hread
  have hs : loaded.raw.validated = Settings.raw { targetFolder := "Archive" } := by
    rw [Option.some.inj hread, Settings.raw_validated, hvalid]
  have hsettings := Operation.settingsIn_of_plain hroot hload hs
  obtain ⟨hresult, hdisk⟩ := (((hends rfl hlog).1 loaded (congrArg Prod.fst hroot) hload).1 _ hs).1
    hlists Operation.relocate.label
  rw [hnotes] at hresult hdisk
  refine ⟨ht, ?_, ?_, ?_, hsame ?_⟩
  · rw [hresult]
    decide +kernel
  · rw [hdisk]
    decide +kernel
  · exact hstay _ ⟨[99], by decide⟩ (by decide) (by decide)
  · intro s hs' n hn hc
    obtain rfl := Except.ok.inj (hsettings.symm.trans hs')
    rw [hnotes] at hn
    revert n
    decide +kernel

/-- Half a character at the end of the format in the settings file: the batch would move the note,
and relocating ends before. -/
theorem relocation_stops_at_half_character :
    let v : Vault := ⟨⟨"/", ["v"]⟩, ["v"]⟩
    let w : World := .ofDisk
      { entries := [(["v"], .folder), (["v", ".daily_note_mover"], .folder),
          (["v", ".daily_note_mover", "data.json"], .file (Text.Utf8.encode
            ("\x7b\"target_folder\": \"Archive\", " ++
              "\"date_format\": \"DD-MM-YYYY-\\ud800\"\x7d").toList)),
          (["v", "Old Daily Notes"], .folder),
          (["v", "Old Daily Notes", "05-03-2021-.md"], .file [97])] }
    let relocate := Operation.relocate.run v (some ⟨2024, 1, 1⟩) false
    w.disk.IsTree ∧ w.Calm ∧ v.IsListable w.disk ∧ ∃ loaded, v.settingsOn w.disk 3 = .ok loaded ∧
      (((Operation.batch loaded.settings.validated ⟨2024, 1, 1⟩).run v Operation.relocate.label
        ((v.notesOn w.disk).filter Note.isLegacy)).runIn w).1.toOption.map (·.moved) = some 1 ∧
      (relocate.runIn w).1.toOption = some none ∧
      (relocate.runIn w).2.disk.get? ["v", "Old Daily Notes", "05-03-2021-.md"] =
        some (.file [97]) := by
  intro v w relocate
  have hlists : v.IsListable w.disk := by
    rw [IsListable]
    decide +kernel
  have hread : (v.settingsOn w.disk 3).toOption.map (fun loaded => loaded.settings.validated) = some
      { targetFolder := "Archive", dateFormat := "DD-MM-YYYY-\ufffd" } := by decide +kernel
  rcases hload : v.settingsOn w.disk 3 with e | loaded <;> rw [hload] at hread
  · cases hread
  have hs := Option.some.inj hread
  refine ⟨by decide, rfl, hlists, loaded, rfl, ?_, by decide +kernel, by decide +kernel⟩
  dsimp only at hs
  rw [hs]
  decide +kernel

end NoteArchive
