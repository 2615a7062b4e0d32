import NoteArchive.Archive.Plan
import NoteArchive.Proofs.Settings.Validation
import NoteArchive.Proofs.Vault.Listing

/-!
# Which notes are in the target folder

Whether a note is in the target folder already is told from the texts of the two paths.  The path of
a note is written in one way only, but the target folder need not be.

* `Path.IsTidy`: a relative path without empty names and single points in its text.
* `Path.isUnderFolder_intercalate_iff`: as a text, a path lies under a folder exactly when its names
  go on after those of the folder and the folder is tidy.
* `Spot.Below`: what is in a folder, or in a folder of it.
* `isUnderFolder_iff_below`: so notes in a tidy target folder stay there, and all other target
  folders hold no note as far as the batch sees.
-/

namespace NoteArchive

namespace Path

/-- A relative path that is written in the way of the names that it leads through. -/
def IsTidy (folder : String) : Prop := "/".intercalate (ofString folder).parts = folder

instance (folder : String) : Decidable (IsTidy folder) := inferInstanceAs (Decidable (_ = _))

variable {names : List String} {folder : String}

/-- Where a slash ends a piece of a written path, the piece is the text of the first names. -/
theorem cut_of_intercalate_eq {front back : List Char} (hnames : ∀ name ∈ names, IsPart name)
    (h : ("/".intercalate names).toList = front ++ '/' :: back) :
    ∃ first rest, names = first ++ rest ∧ rest ≠ [] ∧ ("/".intercalate first).toList = front := by
  have hne : names ≠ [] := by
    rintro rfl
    simp at h
  have hslash : ∀ l ∈ names.map String.toList, '/' ∉ l := by
    intro l hl
    obtain ⟨name, hname, rfl⟩ := List.mem_map.1 hl
    exact (hnames name hname).no_slash
  -- the pieces between the slashes are the names on one side, and on the other those of both parts
  have hpieces : names.map String.toList = front.splitOn '/' ++ back.splitOn '/' := by
    rw [← List.splitOn_append_cons_self, ← h, String.toList_intercalate]
    exact (List.splitOn_intercalate '/' hslash (by simpa using hne)).symm
  obtain ⟨first, rest, rfl, hfirst, hrest⟩ := List.map_eq_append_iff.1 hpieces
  refine ⟨first, rest, rfl, ?_, ?_⟩
  · rintro rfl
    exact List.splitOn_ne_nil '/' back hrest.symm
  · rw [String.toList_intercalate, hfirst]
    exact List.intercalate_splitOn '/'

/-- Without slashes at its ends a folder is looked for as it is. -/
theorem isUnderFolder_eq_true_iff {path : String}
    (hslash : Text.trim (· = '/') folder.toList = folder.toList) :
    isUnderFolder path folder = true ↔ folder.toList ++ ['/'] <+: path.toList := by
  have hlast := (Text.trim_eq_self_iff.1 hslash).2
  have hstripped : folder.toList.reverse.dropWhile (· = '/') = folder.toList.reverse :=
    Text.dropWhile_eq_self (by rwa [List.head?_reverse])
  rw [isUnderFolder, hstripped, List.reverse_reverse, List.isPrefixOf_iff_prefix]

/-- As a text, a written path lies under a folder exactly when its names go on after those of the
folder, and the folder is tidy. -/
theorem isUnderFolder_intercalate_iff (hnames : ∀ name ∈ names, IsPart name) (hne : folder ≠ "")
    (hslash : Text.trim (· = '/') folder.toList = folder.toList) :
    isUnderFolder ("/".intercalate names) folder = true ↔
      IsTidy folder ∧ (ofString folder).parts <+: names ∧ (ofString folder).parts ≠ names := by
  rw [isUnderFolder_eq_true_iff hslash]
  constructor
  · rintro ⟨back, hback⟩
    rw [List.append_assoc, List.singleton_append] at hback
    obtain ⟨first, rest, rfl, hrest, hfirst⟩ := cut_of_intercalate_eq hnames hback.symm
    have hfolder : "/".intercalate first = folder := String.toList_inj.1 hfirst
    have hparts : (ofString folder).parts = first := by
      rw [← hfolder, ofString_intercalate fun name hn => hnames name (List.mem_append_left _ hn)]
    rw [IsTidy, hparts]
    refine ⟨hfolder, List.prefix_append _ _, ?_⟩
    simpa using hrest
  · rintro ⟨htidy, ⟨rest, rfl⟩, hproper⟩
    have hrest : rest ≠ [] := by
      rintro rfl
      exact hproper (List.append_nil _).symm
    have hfirst : (ofString folder).parts ≠ [] := by
      intro hnil
      rw [IsTidy, hnil] at htidy
      exact hne htidy.symm
    rw [String.intercalate_append_of_ne_nil hfirst hrest, htidy, String.toList_append,
      String.toList_append]
    exact List.prefix_append _ _

end Path

namespace Vault

/-- What is in a folder, or in a folder of it. -/
def Spot.Below (file folder : Spot) : Prop :=
  folder.place <+: file.place ∧ folder.place ≠ file.place

instance (file folder : Spot) : Decidable (file.Below folder) :=
  inferInstanceAs (Decidable (_ ∧ _))

theorem below_spot_iff {v : Vault} {names first : List String} :
    (v.spot names).Below (v.spot first) ↔ first <+: names ∧ first ≠ names := by
  simp only [Spot.Below, spot, List.prefix_append_right_inj, ne_eq, List.append_cancel_left_eq]

end Vault

open Vault

/-- A batch leaves a note where it is if its path lies under the target folder. -/
theorem Batch.not_isMove_of_isUnderFolder {b : Batch} {n : Note}
    (h : isUnderFolder n.path b.settings.targetFolder = true) : (b.verdict n).isMove = false := by
  rw [verdict]
  split
  · rfl
  · rw [if_pos h]
    split <;> rfl

/-- A batch takes a note for one in the target folder exactly when it is in that folder and the
folder is tidy.  So no note in a tidy target folder is moved. -/
theorem isUnderFolder_iff_below (v : Vault) (s : Settings) (d : Disk) (n : Note) (ht : d.IsTree)
    (hn : n ∈ v.notesOn d) :
    ∃ folder file, v.resolve s.validated.targetFolder = .ok folder ∧
      v.resolve n.path = .ok file ∧
      (isUnderFolder n.path s.validated.targetFolder = true ↔
        Path.IsTidy s.validated.targetFolder ∧ file.Below folder) ∧
      (Path.IsTidy s.validated.targetFolder → file.Below folder →
        ∀ b : Batch, b.settings = s.validated → (b.verdict n).isMove = false) := by
  obtain ⟨up, name, hnote⟩ := (mem_notesOn_iff ht).1 hn
  have hparts := hnote.isPart ht
  have hiff : isUnderFolder n.path s.validated.targetFolder = true ↔
      Path.IsTidy s.validated.targetFolder ∧
        (v.spot (up ++ [name])).Below (v.spot (Path.ofString s.validated.targetFolder).parts) := by
    rw [hnote.path_eq, below_spot_iff, Settings.targetFolder_validated]
    exact Path.isUnderFolder_intercalate_iff hparts (Settings.resolveTarget_ne_empty _)
      (Settings.trim_slash_resolveTarget _)
  refine ⟨_, v.spot (up ++ [name]), resolve_eq_ok_iff.2 ⟨?_, rfl⟩,
    resolve_eq_ok_iff.2 ⟨hnote.isVaultRelative_path ht, ?_⟩, hiff, ?_⟩
  · rw [Settings.targetFolder_validated]
    exact Settings.isVaultRelative_resolveTarget _
  · rw [hnote.ofString_path ht]
  · intro htidy hbelow b hb
    refine Batch.not_isMove_of_isUnderFolder ?_
    rw [hb]
    exact hiff.2 ⟨htidy, hbelow⟩

/-- A note further down in the target folder, which is asked for with slashes at its ends. -/
theorem isUnderFolder_iff_below_of_archived_note :
    let v : Vault := ⟨⟨"/", ["v"]⟩, ["v"]⟩
    let d : Disk := { entries := [(["v"], .folder), (["v", "A"], .folder),
      (["v", "A", "2021"], .folder), (["v", "A", "2021", "05-03-2021.md"], .file [97])] }
    let n : Note := .ofPath "05-03-2021.md" "A/2021/05-03-2021.md"
    let s : Settings := { Settings.usual with targetFolder := "/A/" }
    d.IsTree ∧ n ∈ v.notesOn d ∧ isUnderFolder n.path s.validated.targetFolder = true ∧
      ∃ folder file, v.resolve s.validated.targetFolder = .ok folder ∧
        v.resolve n.path = .ok file ∧ file.Below folder := by
  intro v d n s
  have ht : d.IsTree := by decide
  have hn : n ∈ v.notesOn d := by decide +kernel
  have hunder : isUnderFolder n.path s.validated.targetFolder = true := by decide +kernel
  obtain ⟨folder, file, hfolder, hfile, hiff, -⟩ := isUnderFolder_iff_below v s d n ht hn
  exact ⟨ht, hn, hunder, folder, file, hfolder, hfile, (hiff.1 hunder).2⟩

/-- A note in the folder `A/B`, where the target folder is written with two slashes: the batch
decides to move it to where it is. -/
theorem archived_note_moves_to_its_own_place :
    let v : Vault := ⟨⟨"/", ["v"]⟩, ["v"]⟩
    let d : Disk := { entries := [(["v"], .folder), (["v", "A"], .folder),
      (["v", "A", "B"], .folder), (["v", "A", "B", "05-03-2021.md"], .file [97])] }
    let n : Note := .ofPath "05-03-2021.md" "A/B/05-03-2021.md"
    let s : Settings := { Settings.usual with targetFolder := "A//B" }
    let b : Batch :=
      ⟨s.validated, DateFormat.compileResolved s.validated.dateFormat, ⟨2024, 1, 1⟩⟩
    d.IsTree ∧ n ∈ v.notesOn d ∧
      (∃ folder file, v.resolve s.validated.targetFolder = .ok folder ∧
        v.resolve n.path = .ok file ∧ file.Below folder) ∧
      isUnderFolder n.path s.validated.targetFolder = false ∧
      b.verdict n = .move "A//B/05-03-2021.md" ∧
      v.placeOf "A//B/05-03-2021.md" = v.placeOf n.path := by
  intro v d n s b
  have htarget : isVaultRelative s.validated.targetFolder = true := by decide +kernel
  have hpath : isVaultRelative n.path = true := by decide +kernel
  refine ⟨by decide, by decide +kernel,
    ⟨_, _, resolve_eq_ok_iff.2 ⟨htarget, rfl⟩, resolve_eq_ok_iff.2 ⟨hpath, rfl⟩, ?_⟩,
    by decide +kernel, by decide +kernel, by decide +kernel⟩
  decide +kernel

end NoteArchive
