import NoteArchive.Proofs.Archive.Calm
import NoteArchive.Proofs.Vault.Escapes

/-!
# A target folder outside the vault

* `Path.front`: the names of a path in front of its first step up.
* `Vault.Leaves`: the folders that are made on the way to a path before it is refused.
* `exists_error_of_ensureFolder`, `file_of_ensureFolder_error`: a folder outside the vault is
  refused, and as a problem with files if the system takes the names in front of the step up.
* `get?_of_ensureFolder_outside`: nothing else is left behind.
* `refused_outside_target`: so a batch with such a target folder has no result, and looks at no
  note.
-/

namespace NoteArchive

open Act Vault

variable {v : Vault} {folder : String} {names : List String} {w w' : World} {e : Failure}

/-- The names of a relative path in front of its first step up. -/
def Path.front (p : Path) : List String :=
  if p.mark = "" then p.parts.takeWhile (· ≠ "..") else []

/-- The missing folders in front of the first step up of a path that can be made: the system takes
them, and no file is in the way. -/
def Vault.Leaves (v : Vault) (d : Disk) (path : String) (p : Place) : Prop :=
  ∃ names, names ≠ [] ∧ names <+: (Path.ofString path).front ∧ p = v.place ++ names ∧
    d.get? p = none ∧ (v.spot names).Accepted d ∧
    (∀ name ∈ names, Disk.isTooLong name = false) ∧ v.IsClear d names

namespace Path

theorem front_prefix (p : Path) : p.front <+: p.parts := by
  rw [front]
  split
  · exact List.takeWhile_prefix _
  · exact List.nil_prefix

theorem up_not_mem_front (p : Path) : ".." ∉ p.front := by
  intro hm
  rw [front] at hm
  split at hm
  · simpa using List.mem_takeWhile_imp hm
  · cases hm

/-- Names without a step up that a relative path begins with come before its first step up. -/
theorem prefix_front {p : Path} (hm : p.mark = "") (hp : names <+: p.parts) (hup : ".." ∉ names) :
    names <+: p.front := by
  obtain ⟨more, hmore⟩ := hp
  rw [front, if_pos hm, ← hmore, List.takeWhile_append_of_pos]
  · exact List.prefix_append _ _
  · intro name hname
    have hne : name ≠ ".." := ne_of_mem_of_not_mem hname hup
    simpa using hne

end Path

/-! ## A folder outside the vault -/

theorem exists_error_of_ensureFolder (ht : w.disk.IsTree) (hout : isVaultRelative folder = false) :
    ∃ e w', (v.ensureFolder folder).runIn w = (.error e, w') := by
  rcases hrun : (v.ensureFolder folder).runIn w with ⟨e | _, w'⟩
  · exact ⟨e, w', rfl⟩
  · rw [(of_ensureFolder ht hrun).1] at hout
    cases hout

/-- Where the system takes the names in front of the step up, a refusal is a problem with files. -/
theorem file_of_ensureFolder_error (hw : w.Calm) (ht : w.disk.IsTree)
    (hroot : w.disk.get? v.place = some .folder)
    (hshort : ∀ name ∈ (Path.ofString folder).front, Disk.isTooLong name = false)
    (hacc : (Path.ofString folder).front ≠ [] →
      (v.spot (Path.ofString folder).front).Accepted w.disk)
    (h : (v.ensureFolder folder).runIn w = (.error e, w')) : ∃ problem, e = .file problem := by
  by_contra hnot
  have hescapes : Escapes (v.ensureFolder folder) w e :=
    ⟨congrArg Prod.fst h, fun p he => hnot ⟨p, he⟩⟩
  obtain ⟨front, name, hreaches, hstep⟩ := (escapes_ensureFolder_iff hw ht hroot).1 hescapes
  -- what fails otherwise would be a step to a name in front of the step up
  have hfront := Path.prefix_front hreaches.relative hreaches.way hreaches.inside
  have hname : name ∈ (Path.ofString folder).front := hfront.subset (by simp)
  have hstepacc : (v.spot (front ++ [name])).Accepted w.disk := by
    obtain ⟨more, hmore⟩ := hfront
    have hall := hacc (List.ne_nil_of_mem hname)
    rw [← hmore] at hall
    exact accepted_of_append (by simp) hall
  cases hstep with
  | null hnull =>
    rw [hstepacc.no_null] at hnull
    cases hnull
  | long _ hlong =>
    rcases hlong with htakes | ⟨hlong, -⟩
    · rw [hstepacc.takes] at htakes
      cases htakes
    · rw [hshort name hname] at hlong
      cases hlong

/-- What is left behind are the folders in front of the step up. -/
theorem get?_of_ensureFolder_outside (hw : w.Calm) (ht : w.disk.IsTree)
    (hroot : w.disk.get? v.place = some .folder) {r : Except Failure Unit}
    (h : (v.ensureFolder folder).runIn w = (r, w')) (p : Place) (entry : Entry) :
    w'.disk.get? p = some entry ↔
      w.disk.get? p = some entry ∨ (entry = .folder ∧ v.Leaves w.disk folder p) := by
  have hgrows := (within_ensureFolder v folder).of_runIn h ht
  have ht' := hgrows.isTree ht
  constructor
  · intro he
    rcases hgrows.get?_cases p with hsame | ⟨hnone, hfolder, names, hne, hp, rfl, hacc⟩
    · exact Or.inl (hsame ▸ he)
    · rw [hfolder] at he
      cases he
      have hm := mark_of_made h hnone hfolder
      -- what was made has names that a folder can have
      have hname : ∀ name ∈ names, IsName name := fun name hname =>
        ht'.names hfolder name (List.mem_append_right _ hname)
      have hclear : v.IsClear w.disk names := fun more hmore hfile =>
        isClear_of_folder ht' hfolder more hmore (hgrows.isFile_iff.2 hfile)
      exact Or.inr ⟨rfl, names, hne, Path.prefix_front hm hp fun hup => (hname _ hup).ne_points rfl,
        rfl, hnone, hacc, fun name hmem => (hname name hmem).short, hclear⟩
  · rintro (he | ⟨rfl, names, hne, hp, rfl, hnone, hacc, hshort, hclear⟩)
    · exact hgrows.get?_of_some he
    · have hm : (Path.ofString folder).mark = "" := by
        by_contra hm
        rw [Path.front, if_neg hm] at hp
        exact hne (List.prefix_nil.1 hp)
      obtain ⟨e, he⟩ := exists_of_ensureFolder hm
        (fun hup => Path.up_not_mem_front _ (hp.subset hup)) hshort hw ht hroot
        (hp.trans (Path.front_prefix _)) hne hacc (fun more hmore _ => hclear more hmore) h
      rcases hgrows.get?_cases (v.place ++ names) with hsame | ⟨-, hfolder, -⟩
      · rw [hsame, hnone] at he
        cases he
      · exact hfolder

/-! ## The batch -/

/-- A batch with a target folder outside the vault has no result.  Where the system takes the names
in front of the step up it fails at a problem with files.  It leaves everything as it was, but for
the missing folders in front of the step up. -/
theorem refused_outside_target (v : Vault) (b : Batch) (label : String) (notes : List Note)
    (w : World) (ht : w.disk.IsTree) (hroot : w.disk.get? v.place = some .folder) (hw : w.Calm)
    (hout : isVaultRelative b.settings.targetFolder = false) :
    ∃ e w', (b.run v label notes).runIn w = (.error e, w') ∧
      ((∀ name ∈ (Path.ofString b.settings.targetFolder).front, Disk.isTooLong name = false) →
        ((Path.ofString b.settings.targetFolder).front ≠ [] →
          (v.spot (Path.ofString b.settings.targetFolder).front).Accepted w.disk) →
        ∃ problem, e = .file problem) ∧
      ∀ p entry, w'.disk.get? p = some entry ↔ w.disk.get? p = some entry ∨
        (entry = .folder ∧ v.Leaves w.disk b.settings.targetFolder p) := by
  obtain ⟨e, w', h⟩ := exists_error_of_ensureFolder (v := v) ht hout
  refine ⟨e, w', ?_, fun hshort hacc => file_of_ensureFolder_error hw ht hroot hshort hacc h,
    get?_of_ensureFolder_outside hw ht hroot h⟩
  rw [Batch.run, runIn_bind_of_error h]

/-- The folder in front of the step up was there, so nothing changes. -/
theorem refused_outside_target_of_known_folder :
    let v : Vault := ⟨⟨"/", ["v"]⟩, ["v"]⟩
    let w : World := .ofDisk
      { entries := [(["v"], .folder), (["v", "A"], .folder), (["v", "05-03-2021.md"], .file [97])] }
    let b : Batch := ⟨{ Settings.usual with targetFolder := "A/../../B" },
      DateFormat.compileResolved DateFormat.usual, ⟨2024, 1, 1⟩⟩
    w.disk.IsTree ∧ w.disk.get? v.place = some .folder ∧ w.Calm ∧
      isVaultRelative b.settings.targetFolder = false ∧
      ∃ problem w', (b.run v Batch.usualLabel (v.notesOn w.disk)).runIn w =
        (.error (.file problem), w') ∧
        ∀ p entry, w'.disk.get? p = some entry ↔ w.disk.get? p = some entry := by
  intro v w b
  have ht : w.disk.IsTree := by decide
  have hout : isVaultRelative b.settings.targetFolder = false := by decide +kernel
  have hfront : (Path.ofString b.settings.targetFolder).front = ["A"] := by decide +kernel
  obtain ⟨e, w', hrun, hfile, hleft⟩ :=
    refused_outside_target v b Batch.usualLabel (v.notesOn w.disk) w ht rfl rfl hout
  obtain ⟨problem, rfl⟩ := hfile (by rw [hfront]; decide +kernel) fun _ => by
    rw [hfront]
    decide +kernel
  refine ⟨ht, rfl, rfl, hout, problem, w', hrun, fun p entry => ?_⟩
  rw [hleft]
  refine or_iff_left ?_
  rintro ⟨-, names, hne, hp, rfl, hnone, -⟩
  rw [hfront] at hp
  obtain rfl : names = ["A"] := by
    obtain ⟨name, rest, rfl⟩ := List.exists_cons_of_ne_nil hne
    obtain ⟨rfl, hrest⟩ := List.cons_prefix_cons.1 hp
    rw [List.prefix_nil.1 hrest]
  exact absurd hnone (by decide)

/-- Where it was missing, it is left behind though the batch is refused. -/
theorem folder_left_by_refused_target :
    let v : Vault := ⟨⟨"/", ["v"]⟩, ["v"]⟩
    let w : World := .ofDisk
      { entries := [(["v"], .folder), (["v", "05-03-2021.md"], .file [97])] }
    let b : Batch := ⟨{ Settings.usual with targetFolder := "A/../B" },
      DateFormat.compileResolved DateFormat.usual, ⟨2024, 1, 1⟩⟩
    let r := (b.run v Batch.usualLabel (v.notesOn w.disk)).runIn w
    w.disk.IsTree ∧ w.disk.get? v.place = some .folder ∧ w.Calm ∧
      ".." ∈ (Path.ofString b.settings.targetFolder).parts ∧
      r.1.toOption.isNone ∧ w.disk.get? ["v", "A"] = none ∧
      r.2.disk.get? ["v", "A"] = some .folder := by
  intro v w b r
  exact ⟨by decide, rfl, rfl, by decide +kernel, by decide +kernel, rfl, by decide +kernel⟩

end NoteArchive
