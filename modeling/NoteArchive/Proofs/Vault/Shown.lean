import Mathlib.Data.List.Sort
import Mathlib.Data.Set.Function
import NoteArchive.Proofs.Settings.Saving
import NoteArchive.Proofs.Vault.Listing

/-!
# What the listing of a vault shows

Which files are listed hangs on the files of the vault alone, and not on what lies below its hidden
folders.

* `Vault.Hides`, `Vault.Shows`: the places below hidden folders, and the files that are not there.
* `Vault.IsListing`: a list that has one entry for each file that is shown, in the order of the
  paths.
* `IsListing.unique`: there is only one such list.  `isListing_notesOn`: it is the listing.
* `notesOn_congr`: what happens below hidden folders does not change it.
  `isListable_savedOn_iff`: nor does the settings file keep the files from being listed.

At the end this is said of the listing as an operation, and of the settings file, which is written
below a hidden folder.
-/

namespace NoteArchive.Vault

open Act

variable {v : Vault} {d d' : Disk} {n n' : Note} {notes notes' : List Note} {p : Place}
  {names : List String}

/-! ## Hidden places -/

/-- One of the folders of the vault that lead to a place is hidden. -/
def Hides (v : Vault) (p : Place) : Prop :=
  ∃ names, p = v.place ++ names ∧ ∃ folder ∈ names.dropLast, isHidden folder = true

/-- A file of the vault below no hidden folder. -/
structure Shows (v : Vault) (d : Disk) (p : Place) : Prop where
  isFile : d.IsFile p
  inside : v.place <+: p
  ne_root : p ≠ v.place
  not_hidden : ¬ v.Hides p

theorem hides_append_iff :
    v.Hides (v.place ++ names) ↔ ∃ folder ∈ names.dropLast, isHidden folder = true := by
  constructor
  · rintro ⟨names', hp, h⟩
    rwa [List.append_cancel_left hp]
  · exact fun h => ⟨names, rfl, h⟩

theorem hides_concat_iff {up : List String} {name : String} :
    v.Hides (v.place ++ (up ++ [name])) ↔ up.any isHidden = true := by
  rw [hides_append_iff, List.dropLast_concat, List.any_eq_true]

/-- A file is shown when its name comes after folders that are not hidden. -/
theorem shows_iff :
    v.Shows d p ↔ ∃ up name, p = v.place ++ (up ++ [name]) ∧ d.IsFile p ∧
      up.any isHidden = false := by
  constructor
  · rintro ⟨hfile, ⟨names, rfl⟩, hroot, hhidden⟩
    obtain ⟨up, name, rfl⟩ := (List.eq_nil_or_concat' names).resolve_left (by simpa using hroot)
    exact ⟨up, name, rfl, hfile, by simpa using mt hides_concat_iff.2 hhidden⟩
  · rintro ⟨up, name, rfl, hfile, hshown⟩
    refine ⟨hfile, List.prefix_append _ _, by simp, ?_⟩
    rw [hides_concat_iff, hshown]
    exact Bool.false_ne_true

/-! ## Listings -/

/-- An entry of a listing: a path that leads to a spot of the vault and is written as paths are,
with the name at its end and the extension of this name. -/
structure IsEntry (v : Vault) (n : Note) : Prop where
  resolve : v.resolve n.path = .ok (v.spot (Path.ofString n.path).parts)
  written : (Path.ofString n.path).text = n.path
  name : n.name = (Path.ofString n.path).name
  extension : n.extension = extensionOf n.name

/-- One entry for each file that is shown and no other one, in the order of the paths. -/
structure IsListing (v : Vault) (d : Disk) (notes : List Note) : Prop where
  bijOn : Set.BijOn (fun n => v.placeOf n.path) {n | n ∈ notes} {p | v.Shows d p}
  sorted : notes.Pairwise fun n n' => n.path < n'.path
  isEntry : ∀ n ∈ notes, v.IsEntry n

/-- An entry is told by the place that it leads to. -/
theorem IsEntry.eq_of_placeOf_eq (h : v.IsEntry n) (h' : v.IsEntry n')
    (hp : v.placeOf n.path = v.placeOf n'.path) : n = n' := by
  have hparts : (Path.ofString n.path).parts = (Path.ofString n'.path).parts :=
    List.append_cancel_left hp
  have hmark : ∀ {m : Note}, v.IsEntry m → (Path.ofString m.path).mark = "" := fun hm =>
    (Path.isVaultRelative_iff.1 (resolve_eq_ok_iff.1 hm.resolve).1).1
  have hof : Path.ofString n.path = Path.ofString n'.path := by
    rw [Path.mk.injEq]
    exact ⟨(hmark h).trans (hmark h').symm, hparts⟩
  have hpath : n.path = n'.path := by rw [← h.written, ← h'.written, hof]
  have hname : n.name = n'.name := by rw [h.name, h'.name, hof]
  have hext : n.extension = n'.extension := by rw [h.extension, h'.extension, hname]
  rw [Note.mk.injEq]
  exact ⟨hname, hpath, hext⟩

/-- There is only one listing of the files that are shown. -/
theorem IsListing.unique (h : v.IsListing d notes) (h' : v.IsListing d' notes')
    (hsame : ∀ p, v.Shows d p ↔ v.Shows d' p) : notes = notes' := by
  -- an entry of one list has the place of an entry of the other one
  have hsub : ∀ {d₁ d₂ : Disk} {l₁ l₂ : List Note}, v.IsListing d₁ l₁ → v.IsListing d₂ l₂ →
      (∀ p, v.Shows d₁ p → v.Shows d₂ p) → ∀ n ∈ l₁, n ∈ l₂ := by
    intro d₁ d₂ l₁ l₂ h₁ h₂ himp n hn
    obtain ⟨n', hn', hp⟩ := h₂.bijOn.surjOn (himp _ (h₁.bijOn.mapsTo hn))
    rwa [← (h₂.isEntry n' hn').eq_of_placeOf_eq (h₁.isEntry n hn) hp]
  have : Std.Antisymm fun n n' : Note => n.path < n'.path :=
    ⟨fun _ _ h h' => absurd h' (String.lt_asymm h)⟩
  have : Std.Irrefl fun n n' : Note => n.path < n'.path := ⟨fun n => String.lt_irrefl n.path⟩
  exact h.sorted.eq_of_mem_iff h'.sorted fun n =>
    ⟨hsub h h' (fun p => (hsame p).1) n, hsub h' h (fun p => (hsame p).2) n⟩

theorem IsNote.isEntry {up : List String} {name : String} (ht : d.IsTree)
    (h : v.IsNote d n up name) : v.IsEntry n where
  resolve := resolve_eq_ok_iff.2 ⟨h.isVaultRelative_path ht, rfl⟩
  written := by rw [h.ofString_path ht, Path.text_relative (by simp), h.path_eq]
  name := by rw [h.ofString_path ht, Path.name, List.getLast?_concat, h.name_eq, Option.getD_some]
  extension := by
    rw [h.eq_ofPath]
    rfl

theorem isEntry_of_mem_notesOn (ht : d.IsTree) (h : n ∈ v.notesOn d) : v.IsEntry n := by
  obtain ⟨up, name, hn⟩ := (mem_notesOn_iff ht).1 h
  exact hn.isEntry ht

/-- The files of a vault are listed in this one way. -/
theorem isListing_notesOn (ht : d.IsTree) (v : Vault) : v.IsListing d (v.notesOn d) where
  bijOn := by
    refine ⟨fun n hn => ?_, fun n hn n' hn' heq => ?_, fun p hp => ?_⟩
    · obtain ⟨up, name, hnote⟩ := (mem_notesOn_iff ht).1 hn
      exact shows_iff.2 ⟨up, name, hnote.placeOf_path ht, isFile_of_mem_notesOn ht hn, hnote.shown⟩
    · exact (isEntry_of_mem_notesOn ht hn).eq_of_placeOf_eq (isEntry_of_mem_notesOn ht hn') heq
    · obtain ⟨up, name, rfl, hfile, hshown⟩ := shows_iff.1 hp
      have hnote : v.IsNote d (.ofPath name ("/".intercalate (up ++ [name]))) up name :=
        ⟨hfile, hshown, rfl⟩
      exact ⟨_, (mem_notesOn_iff ht).2 ⟨up, name, hnote⟩, hnote.placeOf_path ht⟩
  sorted := notesOn_pairwise ht v
  isEntry _ := isEntry_of_mem_notesOn ht

/-! ## What is not seen -/

/-- What happens below hidden folders does not change the listing. -/
theorem notesOn_congr (ht : d.IsTree) (ht' : d'.IsTree)
    (h : ∀ p, ¬ v.Hides p → (d'.IsFile p ↔ d.IsFile p)) : v.notesOn d' = v.notesOn d := by
  refine (isListing_notesOn ht' v).unique (isListing_notesOn ht v) fun p => ?_
  constructor
  · exact fun hp => ⟨(h p hp.not_hidden).1 hp.isFile, hp.inside, hp.ne_root, hp.not_hidden⟩
  · exact fun hp => ⟨(h p hp.not_hidden).2 hp.isFile, hp.inside, hp.ne_root, hp.not_hidden⟩

theorem hides_settingsFile (v : Vault) : v.Hides v.settingsFile.place :=
  ⟨[".daily_note_mover", "data.json"], rfl, ".daily_note_mover", List.mem_singleton_self _,
    by decide⟩

/-- The settings file is not there for the listing. -/
theorem notesOn_savedOn (ht : d.IsTree) (hroot : d.get? v.place = some .folder)
    (content : List UInt8) : v.notesOn (v.savedOn d content) = v.notesOn d := by
  refine notesOn_congr ht (isTree_savedOn ht hroot content) fun p hp => ?_
  refine isFile_savedOn_iff d content ?_
  rintro rfl
  exact hp v.hides_settingsFile

/-- The listing does not look at the settings file either, and the folder of this file is made only
where the system takes its path. -/
theorem isListable_savedOn_iff (ht : d.IsTree) (hroot : d.get? v.place = some .folder)
    (content : List UInt8) : v.IsListable (v.savedOn d content) ↔ v.IsListable d := by
  rw [isListable_iff ht, isListable_iff (isTree_savedOn ht hroot content)]
  simp only [takesPath_savedOn]
  constructor
  · intro h names hlook
    refine h names (hlook.imp_right (Or.imp (folder_savedOn content) ?_))
    rintro ⟨hfile, hshown⟩
    refine ⟨(isFile_savedOn_iff d content ?_).2 hfile, hshown⟩
    intro hp
    rw [List.append_cancel_left hp] at hshown
    cases hshown
  · intro h names hlook
    by_cases htakes : d.takesPath v.settingsFolder.text = true
    · rcases hlook with rfl | hfolder | ⟨hfile, hshown⟩
      · exact h [] (Or.inl rfl)
      · rcases folder_of_savedOn hfolder with hfolder | hp
        · exact h names (Or.inr (Or.inl hfolder))
        · rwa [List.append_cancel_left hp]
      · refine h names (Or.inr (Or.inr ⟨(isFile_savedOn_iff d content ?_).1 hfile, hshown⟩))
        intro hp
        rw [List.append_cancel_left hp] at hshown
        cases hshown
    · rw [savedOn_of_not_takesPath htakes] at hlook
      exact h names hlook

end NoteArchive.Vault
