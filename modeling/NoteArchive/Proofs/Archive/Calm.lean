import NoteArchive.Proofs.Archive.Progress
import NoteArchive.Proofs.Vault.Delivered

/-!
# A note where nothing fails from outside

* `Vault.IsClear`: no file is on the way to some names.
* `folder_of_ensureFolder`: which folders are there after one was to be made.
* `runIn_ensureFolder_again`, `folder_of_ensureFolder_again`: what could be made once can be made
  again.
* `runIn_move_of_open`: a note can be moved where nothing is in the way.
* `folder_of_move`: which folders are there after a note was to be moved.
-/

namespace NoteArchive

open Act Vault

variable {v : Vault}

/-- No file is on the way to some names, the names themselves included. -/
def Vault.IsClear (v : Vault) (d : Disk) (names : List String) : Prop :=
  ∀ more, more <+: names → ¬ d.IsFile (v.place ++ more)

namespace Vault

theorem IsClear.above {d : Disk} {names names' : List String} (h : v.IsClear d names')
    (hp : names <+: names') : v.IsClear d names :=
  fun _ hmore => h _ (hmore.trans hp)

theorem isClear_of_folder {d : Disk} {names : List String} (ht : d.IsTree)
    (hf : d.get? (v.place ++ names) = some .folder) : v.IsClear d names :=
  fun _ hmore => ht.not_isFile_of_prefix hf ((List.prefix_append_right_inj _).2 hmore)

/-- What comes before a longer row of names, which a shorter one does not reach. -/
theorem ne_of_length_lt {p : Place} {names names' : List String}
    (h : names.length < names'.length) : p ++ names ≠ p ++ names' := by
  intro he
  rw [List.append_cancel_left he] at h
  omega

/-- A folder that was missing is there after a folder below it was to be made, if the system takes
its path and no file is in the way. -/
theorem folder_of_ensureFolder {folder : String} {w w' : World} {r : Except Failure Unit}
    (hin : isVaultRelative folder = true)
    (hshort : ∀ name ∈ (Path.ofString folder).parts, Disk.isTooLong name = false) (hw : w.Calm)
    (ht : w.disk.IsTree) (hroot : w.disk.get? v.place = some .folder) {names : List String}
    (hp : names <+: (Path.ofString folder).parts) (hn : names ≠ [])
    (hacc : (v.spot names).Accepted w.disk) (hclear : v.IsClear w.disk names.dropLast)
    (hnone : w.disk.get? (v.place ++ names) = none)
    (h : (v.ensureFolder folder).runIn w = (r, w')) :
    w'.disk.get? (v.place ++ names) = some .folder := by
  have hbefore : ∀ more, more <+: names → more ≠ names → ¬ w.disk.IsFile (v.place ++ more) := by
    intro more hmore hne
    -- what is strictly above the names lies on the way to the folder that holds them
    refine hclear more ?_
    obtain ⟨front, last, rfl⟩ := (List.eq_nil_or_concat' names).resolve_left hn
    rw [List.dropLast_concat]
    exact (List.prefix_concat_iff.1 hmore).resolve_left hne
  obtain ⟨hm, hup⟩ := Path.isVaultRelative_iff.1 hin
  obtain ⟨e, he⟩ := exists_of_ensureFolder hm (fun hmem => hup (hp.subset hmem))
    (fun name hname => hshort name (hp.subset hname)) hw ht hroot hp hn hacc hbefore h
  have hgrows := (within_ensureFolder v folder).of_runIn h ht
  rcases hgrows.get?_cases (v.place ++ names) with hsame | ⟨-, hf, -⟩
  · rw [hsame, hnone] at he
    cases he
  · exact hf

section Again

variable {folder : String} {w w₁ w' w₁' : World} {r r' : Except Failure Unit} (ht : w.disk.IsTree)
  (ht' : w'.disk.IsTree) (hw' : w'.Calm) (hlong : w'.disk.longestPath = w.disk.longestPath)
  (hroot' : w'.disk.get? v.place = some .folder)
  (hfiles : ∀ more, more <+: (Path.ofString folder).parts →
    w'.disk.IsFile (v.place ++ more) → w.disk.IsFile (v.place ++ more))

include ht ht' hw' hlong hroot' hfiles

/-- A folder that could be made on one disk can be made on another one where nothing fails from
outside and no other files are in the way. -/
theorem runIn_ensureFolder_again (h : (v.ensureFolder folder).runIn w = (.ok (), w₁)) :
    ∃ w₁', (v.ensureFolder folder).runIn w' = (.ok (), w₁') := by
  obtain ⟨hin, hall⟩ := of_ensureFolder ht h
  have hgrows := (within_ensureFolder v folder).of_runIn h ht
  have ht₁ := hgrows.isTree ht
  refine runIn_ensureFolder_of_clear hin (fun name hname => ?_) hw' ht' hroot' (fun hne => ?_)
    fun more hp hne hfile => ?_
  · obtain ⟨-, e, he⟩ := hall _ (List.prefix_refl _) (List.ne_nil_of_mem hname)
    exact (ht₁.names he name (List.mem_append_right _ hname)).short
  · exact (hall _ (List.prefix_refl _) hne).1.of_longestPath_eq hlong
  · -- a file above the folder would have kept it from being made
    exact Disk.not_isFile_of_folder (folder_above_of_ensureFolder ht h hp hne)
      (hgrows.isFile_iff.2 (hfiles more hp hfile))

/-- A folder that one attempt made on the way of a folder, whatever came of it, is there after
another one where nothing fails from outside and no other files are in the way. -/
theorem folder_of_ensureFolder_again (h : (v.ensureFolder folder).runIn w = (r, w₁))
    (h' : (v.ensureFolder folder).runIn w' = (r', w₁')) {p : Place}
    (hnone : w.disk.get? p = none) (hfolder : w₁.disk.get? p = some .folder) :
    w₁'.disk.get? p = some .folder := by
  have hgrows := (within_ensureFolder v folder).of_runIn h ht
  have hgrows' := (within_ensureFolder v folder).of_runIn h' ht'
  have ht₁ := hgrows.isTree ht
  rcases hgrows.get?_cases p with hsame | ⟨-, -, names, hn, hp, rfl, hacc⟩
  · rw [hsame, hnone] at hfolder
    cases hfolder
  · have hm := mark_of_made h hnone hfolder
    -- what could be made has names that a folder can have, and no file above it
    have hname : ∀ name ∈ names, IsName name := fun name hname =>
      ht₁.names hfolder name (List.mem_append_right _ hname)
    have hclear : ∀ more, more <+: names → ¬ w'.disk.IsFile (v.place ++ more) :=
      fun more hmore hfile => isClear_of_folder ht₁ hfolder more hmore
        (hgrows.isFile_iff.2 (hfiles more (hmore.trans hp) hfile))
    obtain ⟨e, he⟩ := exists_of_ensureFolder hm (fun hup => (hname _ hup).ne_points rfl)
      (fun name hmem => (hname name hmem).short) hw' ht' hroot' hp hn (hacc.of_longestPath_eq hlong)
      (fun more hmore _ => hclear more hmore) h'
    rcases w₁'.disk.get?_cases (v.place ++ names) with hnone' | hf | hfile
    · rw [hnone'] at he
      cases he
    · exact hf
    · exact absurd (hgrows'.isFile_iff.1 hfile) (hclear names (List.prefix_refl names))

end Again

/-- A place below a folder that was to be made stays free. -/
theorem none_of_ensureFolder {folder : String} {w w' : World} {r : Except Failure Unit}
    (ht : w.disk.IsTree) {names : List String}
    (hlong : (Path.ofString folder).parts.length < names.length)
    (hnone : w.disk.get? (v.place ++ names) = none)
    (h : (v.ensureFolder folder).runIn w = (r, w')) :
    w'.disk.get? (v.place ++ names) = none := by
  have hgrows := (within_ensureFolder v folder).of_runIn h ht
  rcases hgrows.get?_cases (v.place ++ names) with hsame | ⟨-, -, names', -, hp, heq, -⟩
  · rw [hsame, hnone]
  · have hlen := hp.length_le
    exact absurd heq.symm (ne_of_length_lt (by omega))

end Vault

namespace Batch

section Open

variable {n : Note} {D : String} {w : World} {up : List String} {name : String}

/-- A note can be moved where nothing fails from outside and nothing is in the way. -/
theorem runIn_move_of_open (hw : w.Calm) (ht : w.disk.IsTree)
    (hroot : w.disk.get? v.place = some .folder) (hsin : isVaultRelative n.path = true)
    (hfile : w.disk.IsFile (v.placeOf n.path))
    (hsacc : (v.spot (Path.ofString n.path).parts).Accepted w.disk)
    (hin : isVaultRelative D = true) (hD : (Path.ofString D).parts = up ++ [name])
    (hshort : ∀ m ∈ up ++ [name], Disk.isTooLong m = false)
    (hacc : (v.spot (Path.ofString D).parts).Accepted w.disk)
    (haacc : (v.spot up).Accepted w.disk) (hfree : w.disk.get? (v.placeOf D) = none)
    (hclear : v.IsClear w.disk up) :
    ∃ w', (Batch.move v n D).runIn w = (.ok (), w') := by
  have hparts : (Path.ofString (folderOf D)).parts = up := by
    rw [ofString_folderOf hin, hD, List.dropLast_concat]
  have hin' := isVaultRelative_folderOf hin
  obtain ⟨w₁, h₁⟩ := runIn_ensureFolder_of_clear hin'
    (by rw [hparts]; exact fun m hm => hshort m (List.mem_append_left _ hm)) hw ht hroot
    (by rw [hparts]; exact fun _ => haacc)
    (by rw [hparts]; exact fun more hmore _ => hclear more hmore)
  have hgrows := (within_ensureFolder v _).of_runIn h₁ ht
  have hcalm := (within_ensureFolder_calm v _).of_runIn h₁ hw
  have habove : w₁.disk.get? (v.place ++ up) = some .folder := by
    rw [← hparts] at hclear ⊢
    exact (folder_iff_of_ensureFolder ht hroot h₁).2 (hclear _ (List.prefix_refl _))
  have hfree₁ : w₁.disk.get? (v.placeOf D) = none := by
    refine none_of_ensureFolder ht ?_ hfree h₁
    rw [hparts, hD, List.length_append, List.length_singleton]
    omega
  -- the folder of the destination is there now, so the system can move the file into it
  obtain ⟨moved, w₂, h₂⟩ := runIn_move_of_free hcalm (hgrows.isTree ht) hsin
    (hgrows.isFile_iff.2 hfile) (hsacc.of_longestPath_eq hgrows.longestPath_eq) hin
    (hacc.of_longestPath_eq hgrows.longestPath_eq) hD (hshort name (by simp)) habove hfree₁
  rw [folderOf] at h₁
  rw [Batch.move, runIn_bind_of_ok h₁, runIn_bind_of_ok h₂]
  exact ⟨_, rfl⟩

/-- A folder that is there after the folder of a destination was to be made stays. -/
theorem folder_of_move {r : Except Failure Unit} {w' : World} (ht : w.disk.IsTree)
    (hfile : w.disk.IsFile (v.placeOf n.path)) (h : (Batch.move v n D).runIn w = (r, w'))
    {p : Place} (hp : ∀ {r₁ w₁}, (v.ensureFolder (folderOf D)).runIn w = (r₁, w₁) →
      w₁.disk.get? p = some .folder) :
    w'.disk.get? p = some .folder := by
  rw [Batch.move] at h
  rcases runIn_bind_cases h with ⟨_, w₁, h₁, h⟩ | ⟨e, h₁, -⟩
  · have hgrows := (within_ensureFolder v _).of_runIn h₁ ht
    have hfolder := hp h₁
    rcases runIn_bind_cases h with ⟨_, w₂, h₂, h⟩ | ⟨e, h₂, -⟩
    · obtain ⟨hmoved, -⟩ := fileMoved_of_move (hgrows.isTree ht) (hgrows.isFile_iff.2 hfile) h₂
      cases h
      exact hmoved.folder hfolder
    · rcases (Vault.runIn_move_cases h₂).2 with ⟨_, _, _, hok, -⟩ | ⟨-, hd⟩
      · cases hok
      · rw [hd]
        exact hfolder
  · exact hp h₁

end Open

end Batch

end NoteArchive
