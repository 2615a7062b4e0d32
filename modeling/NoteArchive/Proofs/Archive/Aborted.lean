import NoteArchive.Proofs.Archive.Preservation

/-!
# A run without a result has moved nothing

* `Vault.Prepared`: from one disk to another all files but the settings file and all folders stay,
  and what is new is the folder of the settings file or leads to a given folder.
* `prepared_savedOn`, `Prepared.grows`: so it is when the settings are written and when folders on
  the way of this folder are made.
* `Batch.grows_of_run`: a batch that fails has only made folders on the way of its target folder.
* `Operation.prepared_of_work`: so it is when the work of an operation fails, wherever it does.

At the end this is said of a whole run.
-/

namespace NoteArchive

open Act Vault

variable {v : Vault} {d d' d'' : Disk} {names : List String}

namespace Vault

/-- Nothing but what comes before a batch was done: the settings file may be written and its folder
made, and folders on the way of some names. -/
structure Prepared (v : Vault) (names : List String) (d d' : Disk) : Prop where
  file : ∀ p, d.IsFile p → p ≠ v.settingsFile.place → d'.get? p = d.get? p
  of_file : ∀ p, d'.IsFile p → p ≠ v.settingsFile.place → d.IsFile p
  folder : ∀ p, d.get? p = some .folder → d'.get? p = some .folder
  of_folder : ∀ p, d'.get? p = some .folder →
    d.get? p = some .folder ∨ p = v.settingsFolder.place ∨
      ∃ front, front ≠ [] ∧ front <+: names ∧ p = v.place ++ front

theorem prepared_self (v : Vault) (names : List String) (d : Disk) : v.Prepared names d d where
  file _ _ _ := rfl
  of_file _ hp _ := hp
  folder _ hp := hp
  of_folder _ hp := Or.inl hp

theorem prepared_savedOn (v : Vault) (names : List String) (d : Disk) (content : List UInt8) :
    v.Prepared names d (v.savedOn d content) where
  file _ hp hne := get?_savedOn_of_isFile content hp hne
  of_file _ hp hne := (isFile_savedOn_iff d content hne).1 hp
  folder _ hp := folder_savedOn content hp
  of_folder _ hp := (folder_of_savedOn hp).imp_right Or.inl

/-- More folders on the way do not matter. -/
theorem Prepared.grows (h : v.Prepared names d d') (hg : d'.Grows (v.OnWay d' names) d'') :
    v.Prepared names d d'' where
  file p hp hne := by
    have hkept := h.file p hp hne
    have hp' : d'.IsFile p := by rwa [Disk.IsFile, hkept]
    rw [hg.get?_of_isFile (hg.isFile_iff.2 hp'), hkept]
  of_file p hp hne := h.of_file p (hg.isFile_iff.1 hp) hne
  folder p hp := hg.get?_of_some (h.folder p hp)
  of_folder p hp := by
    rcases hg.get?_cases p with he | ⟨-, -, front, hne, hfront, rfl, -⟩
    · exact h.of_folder p (he ▸ hp)
    · exact Or.inr (Or.inr ⟨front, hne, hfront, rfl⟩)

end Vault

/-- A batch fails only at its target folder, with some folders made on the way there. -/
theorem Batch.grows_of_run {b : Batch} {notes : List Note} {label : String} {w w' : World}
    {e : Failure} (ht : w.disk.IsTree) (hl : Lists v w.disk notes)
    (h : (b.run v label notes).runIn w = (.error e, w')) :
    w.disk.Grows (v.OnWay w.disk (Path.ofString b.settings.targetFolder).parts) w'.disk := by
  rcases (run_cases ht hl h).2 with ⟨e', hensure, -, -⟩ | ⟨t, _, _, hok, -⟩
  · exact (within_ensureFolder v _).of_runIn hensure ht
  · cases hok

namespace Operation

/-- The names that lead to the target folder of the settings that an operation uses, if it comes so
far that it uses any. -/
def targetParts (v : Vault) (around : Nat) (w : World) : List String :=
  match settingsIn v around w with
  | .ok s => (Path.ofString s.targetFolder).parts
  | .error _ => []

/-- Where the work of an operation fails, it has only prepared its batch. -/
theorem prepared_of_work {op : Operation} {around : Nat} {day : Date} {w w' : World}
    {e : Failure} (ht : w.disk.IsTree) (h : (op.work v day around).runIn w = (.error e, w')) :
    v.Prepared (targetParts v around w) w.disk w'.disk := by
  rcases settingsIn_cases v around w with ⟨e', w₁, hset⟩ | ⟨s, w₁, hset⟩
  · rw [hset.work] at h
    cases h
    rcases hset.saved ht with rfl | ⟨-, _, cut, -, -, -, hlike⟩
    · exact prepared_self v _ _
    · -- a settings file that was cut off is a settings file
      rw [hlike.disk]
      exact prepared_savedOn v _ _ cut.written
  · obtain ⟨hroot, hlike⟩ := hset.saved ht
    have hd₁ : w₁.disk = v.savedOn w.disk s.fileBytes := hlike.disk
    have hnames : targetParts v around w = (Path.ofString s.targetFolder).parts := by
      rw [targetParts, hset.settings]
    rw [hset.work] at h
    rcases runIn_bind_cases h with ⟨notes, w₂, hnotes, hrun⟩ | ⟨e', hnotes, -⟩
    · obtain ⟨hd₂, -, -, ⟨-, hok⟩ | ⟨e', he'⟩⟩ := of_notes hnotes
      · have hd : w₂.disk = v.savedOn w.disk s.fileBytes := hd₂.trans hd₁
        have ht₂ : w₂.disk.IsTree := hd ▸ isTree_savedOn ht hroot _
        rw [Except.ok.inj hok, ← hd₂] at hrun
        have hg := Batch.grows_of_run ht₂ ((Batch.lists_notesOn ht₂ v).filter _) hrun
        rw [hnames]
        refine Prepared.grows ?_ hg
        rw [hd]
        exact prepared_savedOn v _ _ _
      · cases he'
    · rw [(of_notes hnotes).1, hd₁]
      exact prepared_savedOn v _ _ _

end Operation

/-- A run that has no result, or fails, has moved nothing: all files but the settings file are where
they were, with the same content, and no others have come; no folder is gone, and new folders are
that of the settings file and those that lead to the target folder of the settings used. -/
theorem prepared_of_no_result {op : Operation} {v : Vault} {today : Option Date} {verbose : Bool}
    {around : Nat} {w w' : World} {r : Except Failure (Option Tally)} (ht : w.disk.IsTree)
    (h : (op.run v today verbose around).runIn w = (r, w')) (hr : ∀ t, r ≠ .ok (some t)) :
    v.Prepared (Operation.targetParts v around w) w.disk w'.disk := by
  rcases Operation.of_run ht h with ⟨e, hopen, -⟩ | ⟨-, -, result, w₂, -, hwork, rfl, ha⟩
  · have hd : w'.disk = w.disk := (Operation.of_openLog hopen).disk
    rw [hd]
    exact prepared_self v _ _
  · rw [ha.disk]
    cases result with
    | ok t => exact absurd rfl (hr t)
    | error e => exact Operation.prepared_of_work ht hwork

/-- The second folder that leads to the target folder is refused from outside: the settings file
and the first folder are new, and the note stays. -/
theorem prepared_of_refused_folder :
    let v : Vault := ⟨⟨"/", ["v"]⟩, ["v"]⟩
    let w : World := .ofDisk
      { entries := [(["v"], .folder), (["v", ".daily_note_mover"], .folder),
          (["v", ".daily_note_mover", "data.json"],
            .file (Text.Utf8.encode "\x7b\"target_folder\": \"A/B\"\x7d".toList)),
          (["v", "05-03-2021.md"], .file [97])] }
      { makeFolder := [none, some ⟨.system, "OSError", "refused"⟩] }
    let archive : Act (Option Tally) := Operation.archive.run v (some ⟨2024, 1, 1⟩) false
    w.disk.IsTree ∧ (archive.runIn w).1.toOption = some none ∧
      (archive.runIn w).2.disk.get? ["v", "A"] = some .folder ∧
      v.Prepared ["A", "B"] w.disk (archive.runIn w).2.disk := by
  intro v w archive
  have ht : w.disk.IsTree := by decide
  have hnone : (archive.runIn w).1.toOption = some none := by decide +kernel
  have hnames : Operation.targetParts v 0 w = ["A", "B"] := by decide +kernel
  refine ⟨ht, hnone, by decide +kernel, ?_⟩
  rw [← hnames]
  have hrun : archive.runIn w = ((archive.runIn w).1, (archive.runIn w).2) := rfl
  refine prepared_of_no_result ht hrun fun t hr => ?_
  have hsome : (archive.runIn w).1.toOption = some (some t) := congrArg Except.toOption hr
  rw [hnone] at hsome
  cases hsome

end NoteArchive
