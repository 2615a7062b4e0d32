import NoteArchive.Proofs.Archive.Preservation
import NoteArchive.Proofs.Archive.Repeat
import NoteArchive.Proofs.Settings.Reload

/-!
# A second run of the same operation

* `Progress.keeps`: a batch leaves the settings file alone.
* `Operation.of_run_archive`: what a run with a result went through.
* `Ran.same_of_validated`, `Ran.validated_of_same`: a second run moves nothing and leaves all as it
  is when its settings are those of the first one, and only then.
-/

namespace NoteArchive

open Act Vault

variable {v : Vault} {b : Batch} {d₀ d : Disk} {s : Settings}

namespace Batch

/-- No note is at the place of the folder of the settings file: its name has no extension. -/
theorem placeOf_path_ne_settingsFolder (ht : d.IsTree) {m : Note × String}
    (hn : m.1 ∈ v.notesOn d) (h : b.Plans m) : v.placeOf m.1.path ≠ v.settingsFolder.place := by
  intro heq
  have hlast := getLast?_placeOf_path ht hn
  rw [heq, settingsFolder_place, List.getLast?_concat] at hlast
  have hname : m.1.name = ".daily_note_mover" := (Option.some.inj hlast).symm
  have hc := h.candidate
  rw [isCandidate, Bool.and_eq_true, decide_eq_true_iff, extension_eq_of_mem_notesOn ht hn,
    hname] at hc
  exact absurd hc.1 (by decide +kernel)

/-- A batch leaves the settings file alone. -/
theorem Progress.keeps {notes : List Note} {t : Tally} {moved failed : List (Note × String)}
    (hP : b.Progress v notes d₀ notes t moved failed d) (ht : d₀.IsTree) (hl : Lists v d₀ notes)
    (hk : v.Keeps d₀ s) : v.Keeps d s := by
  have hsource : ∀ p ∈ moved.map v.placesOf,
      p.1 ≠ v.settingsFile.place ∧ p.1 ≠ v.settingsFolder.place := by
    intro p hp
    obtain ⟨m, hm, rfl⟩ := List.mem_map.1 hp
    obtain ⟨hn, hplans⟩ := hP.plans_of_moved hm
    exact ⟨placeOf_path_ne_settingsFile ht (hl.mem _ hn),
      placeOf_path_ne_settingsFolder ht (hl.mem _ hn) hplans⟩
  rcases hk with hfile | ⟨hs, hfolder | ⟨bytes, hb⟩⟩
  · exact Or.inl (hP.carries.get?_of_some hfile fun p hp => (hsource p hp).1.symm)
  · exact Or.inr ⟨hs, Or.inl (hP.carries.folder hfolder)⟩
  · refine Or.inr ⟨hs, Or.inr ⟨bytes, ?_⟩⟩
    exact hP.carries.get?_of_some hb fun p hp => (hsource p hp).2.symm

end Batch

namespace Operation

/-- What an archiving run with a result went through. -/
structure Ran (v : Vault) (today : Date) (around : Nat) (d : Disk) (loaded : Loaded)
    (t : Tally) (w w' : World) : Prop where
  root : d.get? v.place = some .folder
  accepted : v.settingsFile.Accepted d
  load : v.settingsOn d (around + 3) = .ok loaded
  disk : w.disk = v.savedOn d loaded.settings.validated.fileBytes
  calm : w.Calm
  run : ((batch loaded.settings.validated today).run v Operation.archive.label
    (v.notesOn w.disk)).runIn w = (.ok t, w')

theorem of_run_archive {today : Date} {verbose : Bool} {around : Nat} {w w' : World} {t : Tally}
    (ht : w.disk.IsTree) (hw : w.Calm)
    (h : (Operation.archive.run v (some today) verbose around).runIn w = (.ok (some t), w')) :
    ∃ loaded w₀ w₀', Ran v today around w.disk loaded t w₀ w₀' ∧ w'.disk = w₀'.disk := by
  rcases run_cases ht h with ⟨⟨e, he⟩, -⟩ | ⟨result, hresult, hout⟩
  · cases he
  · rcases result with e | t'
    · cases hresult
    · obtain rfl : t = t' := Option.some.inj (Except.ok.inj hresult)
      generalize hd : w'.disk = d' at hout
      cases hout with
      | @ran loaded w₀ w₀' _ hroot hacc hload hdisk hcalm hrun =>
        have hacc₁ := accepted_settingsFile (hasNull_text_of_accepted hacc) hload
        refine ⟨loaded, w₀, w₀', ⟨hroot, hacc₁, hload, hdisk, hcalm hw, ?_⟩, rfl⟩
        -- archiving concerns every file
        have hall : (v.notesOn w₀.disk).filter Operation.archive.concerns = v.notesOn w₀.disk :=
          List.filter_eq_self.2 fun _ _ => rfl
        rw [hall] at hrun
        exact hrun

namespace Ran

variable {today : Date} {around around' : Nat} {loaded loaded' : Loaded} {t t' : Tally}
  {w w' w₁ w₁' : World}

theorem isTree (hr : Ran v today around d loaded t w w') (ht : d.IsTree) : w.disk.IsTree := by
  rw [hr.disk]
  exact isTree_savedOn ht hr.root _

theorem progress (hr : Ran v today around d loaded t w w') (ht : d.IsTree) :
    ∃ moved failed, (batch loaded.settings.validated today).Progress v (v.notesOn w.disk) w.disk
      (v.notesOn w.disk) t moved failed w'.disk := by
  have ht' := hr.isTree ht
  rcases (Batch.run_cases ht' (Batch.lists_notesOn ht' v) hr.run).2 with
    ⟨e, -, he, -⟩ | ⟨t₁, moved, failed, ht₁, hP⟩
  · cases he
  · cases ht₁
    exact ⟨moved, failed, hP⟩

theorem isTree_after (hr : Ran v today around d loaded t w w') (ht : d.IsTree) :
    w'.disk.IsTree := by
  obtain ⟨moved, failed, hP⟩ := hr.progress ht
  exact hP.carries.isTree

/-- After a run the vault keeps the settings with which it was made. -/
theorem keeps (hr : Ran v today around d loaded t w w') (ht : d.IsTree) :
    v.Keeps w'.disk loaded.settings.validated := by
  have ht' := hr.isTree ht
  obtain ⟨moved, failed, hP⟩ := hr.progress ht
  refine hP.keeps ht' (Batch.lists_notesOn ht' v) ?_
  rw [hr.disk]
  exact keeps_savedOn ht hr.accepted hr.load

/-- These are the settings that a second run reads. -/
theorem settings_eq (hr : Ran v today around d loaded t w w') (ht : d.IsTree)
    (hr₁ : Ran v today around' w'.disk loaded' t' w₁ w₁') :
    loaded'.settings = loaded.settings.validated :=
  Loaded.settings_eq ((hr.keeps ht).raw_eq (hr.isTree_after ht) hr₁.accepted hr₁.load)

theorem targetFolder_batch_ne_empty (s : Settings) (day : Date) :
    (batch s.validated day).settings.targetFolder ≠ "" :=
  s.targetFolder_validated_ne_empty

/-- If they can be used as they are, the second run changes nothing. -/
theorem same_of_validated (hr : Ran v today around d loaded t w w') (ht : d.IsTree)
    (hr₁ : Ran v today around' w'.disk loaded' t' w₁ w₁')
    (hvalid : loaded.settings.validated.validated = loaded.settings.validated) :
    t'.moved = 0 ∧ ∀ p, w₁'.disk.get? p = w'.disk.get? p := by
  have hsettings := hr.settings_eq ht hr₁
  have hkeeps := hr.keeps ht
  have ht' := hr.isTree_after ht
  have hdisk := hr₁.disk
  have hrun := hr₁.run
  rw [hsettings, hvalid, hkeeps.savedOn_eq ht'] at hdisk
  rw [hsettings, hvalid] at hrun
  have hroot : w.disk.get? v.place = some .folder := by
    rw [hr.disk]
    exact folder_savedOn _ hr.root
  have hsame := Batch.same_of_run_again (targetFolder_batch_ne_empty _ _) (hr.isTree ht) hroot
    hr.calm hr.run hdisk hr₁.calm hrun
  rwa [hdisk] at hsame

/-- If the second run changes nothing, its settings are those of the first one. -/
theorem validated_of_same (hr : Ran v today around d loaded t w w') (ht : d.IsTree)
    (hr₁ : Ran v today around' w'.disk loaded' t' w₁ w₁')
    (hsame : ∀ p, w₁'.disk.get? p = w'.disk.get? p) :
    loaded.settings.validated.validated = loaded.settings.validated := by
  have hsettings := hr.settings_eq ht hr₁
  have ht' := hr.isTree_after ht
  rcases hr.keeps ht with hfile | ⟨husual, -⟩
  · -- both runs left their settings in the file
    have hfolder : ¬ w'.disk.IsFile v.settingsFolder.place := by
      have hfile' := hfile
      rw [settingsFile_place] at hfile'
      exact Disk.not_isFile_of_folder (ht'.folder_of_append hfile' (by simp))
    have hsaved : w₁.disk.get? v.settingsFile.place =
        some (.file loaded'.settings.validated.fileBytes) := by
      rw [hr₁.disk]
      refine get?_savedOn_self ht' hr₁.accepted.takes hfolder ?_ _
      rw [hfile]
      simp
    obtain ⟨moved, failed, hP⟩ := hr₁.progress ht'
    have hkept := hP.carries.get?_of_some hsaved ?_
    · rw [hsame, hfile, hsettings] at hkept
      have hbytes : loaded.settings.validated.fileBytes =
          loaded.settings.validated.validated.fileBytes := by simpa using hkept
      exact (Settings.fileBytes_injective hbytes).symm
    · intro p hp heq
      obtain ⟨m, hm, rfl⟩ := List.mem_map.1 hp
      exact Batch.placeOf_path_ne_settingsFile (hr₁.isTree ht') (hP.plans_of_moved hm).1 heq.symm
  · rw [husual, Settings.validated_usual]

end Ran

end Operation

/-- Where an archiving run had a result and nothing failed from outside, a second one with a result
moves nothing and leaves all as it is, the settings file included, exactly when no blank is at
the ends of the target folder of the first one. -/
theorem second_run_changes_nothing_iff (v : Vault) (today : Date) (verbose verbose' : Bool)
    (around around' : Nat) (w w' w₁ w₁' : World) (t t' : Tally) (ht : w.disk.IsTree) (hw : w.Calm)
    (h : (Operation.archive.run v (some today) verbose around).runIn w = (.ok (some t), w'))
    (hsame : w₁.disk = w'.disk) (hw₁ : w₁.Calm)
    (h₁ : (Operation.archive.run v (some today) verbose' around').runIn w₁ =
      (.ok (some t'), w₁')) :
    (t'.moved = 0 ∧ ∀ p, w₁'.disk.get? p = w₁.disk.get? p) ↔
      Text.trim Text.isBlank (Operation.settingsFor v around w.disk).targetFolder.toList =
        (Operation.settingsFor v around w.disk).targetFolder.toList := by
  obtain ⟨loaded, w₀, w₀', hran, hd'⟩ := Operation.of_run_archive ht hw h
  rw [← hsame] at hd'
  have ht₁ : w₁.disk.IsTree := by
    rw [hd']
    exact hran.isTree_after ht
  obtain ⟨loaded', w₂, w₂', hran₁, hd₁'⟩ := Operation.of_run_archive ht₁ hw₁ h₁
  -- the target folder of the first run is that of the settings it saved
  have hu : Operation.settingsFor v around w.disk = loaded.settings.validated := by
    rw [Operation.settingsFor, hran.load]
  rw [hu, ← Settings.validated_validated_iff, hd₁', hd']
  rw [hd'] at hran₁
  exact ⟨fun hnothing => hran.validated_of_same ht hran₁ hnothing.2,
    hran.same_of_validated ht hran₁⟩

theorem exists_tally {r : Except Failure (Option Tally)} {n : Nat}
    (h : r.toOption.join.map (·.moved) = some n) : ∃ t, r = .ok (some t) ∧ t.moved = n := by
  rcases r with e | _ | t
  · cases h
  · cases h
  · exact ⟨t, rfl, Option.some.inj h⟩

/-- The results of two runs, the second one on the disk that the first one left. -/
theorem exists_two_tallies {archive : Act (Option Tally)} {w : World} {n n' : Nat}
    (hfirst : (archive.runIn w).1.toOption.join.map (·.moved) = some n)
    (hsecond : (archive.runIn (World.ofDisk (archive.runIn w).2.disk)).1.toOption.join.map
      (·.moved) = some n') :
    ∃ t w' t' w₁', archive.runIn w = (.ok (some t), w') ∧
      archive.runIn (World.ofDisk w'.disk) = (.ok (some t'), w₁') ∧
      t.moved = n ∧ t'.moved = n' := by
  obtain ⟨t, ht, hmoved⟩ := exists_tally hfirst
  obtain ⟨t', ht', hmoved'⟩ := exists_tally hsecond
  exact ⟨t, _, t', _, Prod.ext ht rfl, Prod.ext ht' rfl, hmoved, hmoved'⟩

/-- A vault with one note and no settings file. -/
theorem second_run_changes_nothing_of_one_note :
    let v : Vault := ⟨⟨"/", ["v"]⟩, ["v"]⟩
    let w : World := .ofDisk
      { entries := [(["v"], .folder), (["v", "05-03-2021.md"], .file [97])] }
    let archive : Act (Option Tally) := Operation.archive.run v (some ⟨2024, 1, 1⟩) false
    w.disk.IsTree ∧ w.Calm ∧
      ∃ t w' t' w₁', archive.runIn w = (.ok (some t), w') ∧ t.moved = 1 ∧
        (World.ofDisk w'.disk).Calm ∧ archive.runIn (World.ofDisk w'.disk) = (.ok (some t'), w₁') ∧
        t'.moved = 0 ∧ ∀ p, w₁'.disk.get? p = w'.disk.get? p := by
  intro v w archive
  have ht : w.disk.IsTree := by decide
  have hblank : Text.trim Text.isBlank (Operation.settingsFor v 0 w.disk).targetFolder.toList =
      (Operation.settingsFor v 0 w.disk).targetFolder.toList := by decide +kernel
  have hfirst : (archive.runIn w).1.toOption.join.map (·.moved) = some 1 := by decide +kernel
  have hsecond : (archive.runIn (World.ofDisk (archive.runIn w).2.disk)).1.toOption.join.map
      (·.moved) = some 0 := by decide +kernel
  obtain ⟨t, w', t', w₁', hrun, hrun', hmoved, -⟩ := exists_two_tallies hfirst hsecond
  refine ⟨ht, rfl, t, w', t', w₁', hrun, hmoved, rfl, hrun', ?_⟩
  exact (second_run_changes_nothing_iff v ⟨2024, 1, 1⟩ false false 0 0 w w' (World.ofDisk w'.disk)
    w₁' t t' ht rfl hrun rfl rfl hrun').2 hblank

/-- A slash and a blank in front of the target folder: the second run moves the note once more. -/
theorem second_run_moves_note_again :
    let v : Vault := ⟨⟨"/", ["v"]⟩, ["v"]⟩
    let w : World := .ofDisk
      { entries := [(["v"], .folder), (["v", "05-03-2021.md"], .file [97]),
          (["v", ".daily_note_mover"], .folder),
          (["v", ".daily_note_mover", "data.json"],
            .file (Text.Utf8.encode "\x7b\"target_folder\": \"/ A\"\x7d".toList))] }
    let archive : Act (Option Tally) := Operation.archive.run v (some ⟨2024, 1, 1⟩) false
    w.disk.IsTree ∧ w.Calm ∧
      ∃ t w' t' w₁', archive.runIn w = (.ok (some t), w') ∧
        archive.runIn (World.ofDisk w'.disk) = (.ok (some t'), w₁') ∧ t'.moved = 1 := by
  intro v w archive
  have ht : w.disk.IsTree := by decide
  have hfirst : (archive.runIn w).1.toOption.join.map (·.moved) = some 1 := by decide +kernel
  have hsecond : (archive.runIn (World.ofDisk (archive.runIn w).2.disk)).1.toOption.join.map
      (·.moved) = some 1 := by decide +kernel
  obtain ⟨t, w', t', w₁', hrun, hrun', -, hmoved⟩ := exists_two_tallies hfirst hsecond
  exact ⟨ht, rfl, t, w', t', w₁', hrun, hrun', hmoved⟩

end NoteArchive
