import NoteArchive.Proofs.Vault.Folders

/-!
# What is there after a folder was to be made

* `folder_above_of_ensureFolder`: where making a folder ended well, all above it is a folder.
* `delivered_iff`: the folder itself is one, unless a file was at its place from the beginning: a
  file passes for the folder.
-/

namespace NoteArchive

open Act

namespace Vault

variable {v : Vault} {folder : String} {w w' : World}

/-- All above a folder is a folder after the folder could be made. -/
theorem folder_above_of_ensureFolder (ht : w.disk.IsTree)
    (h : (v.ensureFolder folder).runIn w = (.ok (), w')) {names : List String}
    (hp : names <+: (Path.ofString folder).parts) (hne : names ≠ (Path.ofString folder).parts) :
    w'.disk.get? (v.place ++ names) = some .folder := by
  have ht' := ((within_ensureFolder v folder).of_runIn h ht).isTree ht
  have hnil : (Path.ofString folder).parts ≠ [] := by
    rintro hnil
    rw [hnil] at hp hne
    exact hne (List.prefix_nil.1 hp)
  -- something is at the place of the folder, and what has something in it is a folder
  obtain ⟨-, e, he⟩ := (of_ensureFolder ht h).2 _ (List.prefix_refl _) hnil
  exact ht'.folder_of_prefix he ((List.prefix_append_right_inj v.place).2 hp)
    fun heq => hne (List.append_cancel_left heq)

/-- The folder itself is there, unless a file has its place. -/
theorem folder_iff_of_ensureFolder (ht : w.disk.IsTree)
    (hroot : w.disk.get? v.place = some .folder)
    (h : (v.ensureFolder folder).runIn w = (.ok (), w')) :
    w'.disk.get? (v.placeOf folder) = some .folder ↔ ¬ w.disk.IsFile (v.placeOf folder) := by
  have hgrows := (within_ensureFolder v folder).of_runIn h ht
  rw [← hgrows.isFile_iff]
  constructor
  · exact Disk.not_isFile_of_folder
  · intro hfile
    rcases w'.disk.get?_cases (v.placeOf folder) with hnone | hfolder | hfile'
    · by_cases hnil : (Path.ofString folder).parts = []
      · rw [placeOf, hnil, List.append_nil]
        exact hgrows.get?_of_some hroot
      · obtain ⟨-, e, he⟩ := (of_ensureFolder ht h).2 _ (List.prefix_refl _) hnil
        rw [← placeOf, hnone] at he
        cases he
    · exact hfolder
    · exact absurd hfile' hfile

end Vault

/-- Where making a folder ended well, everything above it is a folder; and the folder itself is one
too, exactly where there was no file at its place. -/
theorem delivered_iff (v : Vault) (folder : String) (w w' : World) (ht : w.disk.IsTree)
    (hroot : w.disk.get? v.place = some .folder)
    (h : (v.ensureFolder folder).runIn w = (.ok (), w')) :
    (∀ names, names <+: (Path.ofString folder).parts → names ≠ (Path.ofString folder).parts →
        w'.disk.get? (v.place ++ names) = some .folder) ∧
      ((∀ names, names <+: (Path.ofString folder).parts →
          w'.disk.get? (v.place ++ names) = some .folder) ↔
        ¬ w.disk.IsFile (v.placeOf folder)) := by
  have habove : ∀ names, names <+: (Path.ofString folder).parts →
      names ≠ (Path.ofString folder).parts → w'.disk.get? (v.place ++ names) = some .folder :=
    fun _ => Vault.folder_above_of_ensureFolder ht h
  have hself := Vault.folder_iff_of_ensureFolder ht hroot h
  refine ⟨habove, fun hall => hself.1 (hall _ (List.prefix_refl _)), fun hfile names hp => ?_⟩
  by_cases hne : names = (Path.ofString folder).parts
  · rw [hne]
    exact hself.2 hfile
  · exact habove names hp hne

/-- The folder is made beside the note that is above it. -/
theorem delivered_beside_note :
    let v : Vault := ⟨⟨"/", ["v"]⟩, ["v"]⟩
    let w : World := .ofDisk
      { entries := [(["v"], .folder), (["v", "A"], .folder), (["v", "A", "n.md"], .file [97])] }
    w.disk.IsTree ∧ w.disk.get? v.place = some .folder ∧
      ∃ w', (v.ensureFolder "A/2021").runIn w = (.ok (), w') ∧
        ∀ names, names <+: ["A", "2021"] → w'.disk.get? (v.place ++ names) = some .folder := by
  intro v w
  have ht : w.disk.IsTree := by decide
  have hparts : (Path.ofString "A/2021").parts = ["A", "2021"] := by decide +kernel
  have hfree : w.disk.get? (v.placeOf "A/2021") = none := by
    rw [Vault.placeOf, hparts]
    decide +kernel
  have hok : ((v.ensureFolder "A/2021").runIn w).1.toOption = some () := by decide +kernel
  rcases hrun : (v.ensureFolder "A/2021").runIn w with ⟨e | _, w'⟩
  · rw [hrun] at hok
    cases hok
  · have hall := ((delivered_iff v "A/2021" w w' ht rfl hrun).2).2 (Disk.not_isFile_of_none hfree)
    rw [hparts] at hall
    exact ⟨ht, rfl, w', rfl, hall⟩

/-- A file passes for the folder: making it ends well, and there is no folder. -/
theorem file_passes_for_folder :
    let v : Vault := ⟨⟨"/", ["v"]⟩, ["v"]⟩
    let w : World := .ofDisk { entries := [(["v"], .folder), (["v", "A"], .file [97])] }
    w.disk.IsTree ∧ w.disk.get? v.place = some .folder ∧ w.Calm ∧ isVaultRelative "A" = true ∧
      (v.ensureFolder "A").runIn w = (.ok (), w) ∧ ["A"] <+: (Path.ofString "A").parts ∧
      w.disk.get? (v.place ++ ["A"]) ≠ some .folder := by
  intro v w
  have hparts : (Path.ofString "A").parts = ["A"] := by decide +kernel
  have hsteps : (Path.ofString "A").steps = ["A"] := by decide +kernel
  have hthere : (v.isThere "A").runIn w = (.ok true, w) := by
    rw [Vault.runIn_isThere]
    exact congrArg (·, w) (by decide +kernel)
  refine ⟨by decide, rfl, rfl, by decide +kernel, ?_, by simp [hparts], by decide⟩
  rw [Vault.ensureFolder, hsteps, Vault.ensureSteps, runIn_bind_of_ok hthere]
  rfl

end NoteArchive
