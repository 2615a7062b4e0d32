import NoteArchive.Proofs.Archive.Calm

/-!
# The ways to the destinations of a batch

The destinations of a batch lie in one target folder, and the folders of dates in it are as deep for
every note.  So a destination is on the way to no other one, and no note that is moved was on the
way to a destination.

* `Batch.Ready`: what is known of a batch whose target folder could be made.
* `Batch.Way`: the names of the folders on the way to the destination of a note.
* `Batch.Leads`: the names of a folder that a batch makes, or one above it.
* `destination_not_leading`, `source_not_leading`: no destination is such a folder, and no note that
  can be moved is at its place.
-/

namespace NoteArchive

open Vault

variable {v : Vault} {b : Batch} {d : Disk} {m m' : Note × String}
  {up up' names : List String} {notes : List Note}

/-- A destination that can be reached: the system takes its path, nothing is there, and no file is
on the way. -/
structure Vault.IsOpen (v : Vault) (d : Disk) (D : String) : Prop where
  accepted : (v.spot (Path.ofString D).parts).Accepted d
  free : d.get? (v.placeOf D) = none
  clear : v.IsClear d (Path.ofString D).parts.dropLast

/-- The system takes the path of a note. -/
def Vault.TakesNote (v : Vault) (d : Disk) (n : Note) : Prop :=
  (v.spot (Path.ofString n.path).parts).Accepted d

namespace Batch

/-- What is known of a batch on a disk when its target folder could be made. -/
structure Ready (b : Batch) (v : Vault) (d : Disk) : Prop where
  isTree : d.IsTree
  ne_empty : b.settings.targetFolder ≠ ""
  inside : isVaultRelative b.settings.targetFolder = true
  short : ∀ name ∈ (Path.ofString b.settings.targetFolder).parts, Disk.isTooLong name = false

/-- The folders on the way to the destination of a note: the target folder, and those of a date. -/
structure Way (b : Batch) (m : Note × String) (up : List String) : Prop where
  parts : (Path.ofString m.2).parts = up ++ [m.1.name]
  inside : isVaultRelative m.2 = true
  split : ∃ date, date.IsReal ∧
    up = (Path.ofString b.settings.targetFolder).parts ++ b.settings.dateFolders date

namespace Ready

theorem way (hr : b.Ready v d) (hm : b.Plans m) (hn : m.1 ∈ v.notesOn d) :
    ∃ up, b.Way m up := by
  have hname := isName_of_mem_notesOn hr.isTree hn
  obtain ⟨date, hreal, -, hD, hparts⟩ := hm.parts (Path.isPart_of_isName hname)
  refine ⟨_, ?_, ?_, date, hreal, rfl⟩
  · rw [hparts, List.append_assoc]
  · rw [hD]
    exact isVaultRelative_destinationFor hname hr.ne_empty hr.inside

theorem short_of_way (hr : b.Ready v d) (hw : b.Way m up) :
    ∀ name ∈ up, Disk.isTooLong name = false := by
  obtain ⟨date, hreal, rfl⟩ := hw.split
  intro name hname
  rcases List.mem_append.1 hname with h | h
  · exact hr.short name h
  · exact (isName_of_mem_dateFolders hreal h).short

end Ready

namespace Way

theorem dropLast_parts (hw : b.Way m up) : (Path.ofString m.2).parts.dropLast = up := by
  rw [hw.parts, List.dropLast_concat]

theorem parts_folderOf (hw : b.Way m up) : (Path.ofString (folderOf m.2)).parts = up := by
  rw [ofString_folderOf hw.inside, hw.dropLast_parts]

theorem placeOf_eq (hw : b.Way m up) (v : Vault) :
    v.placeOf m.2 = v.place ++ (up ++ [m.1.name]) := by
  rw [placeOf, hw.parts]

theorem target_prefix (hw : b.Way m up) :
    (Path.ofString b.settings.targetFolder).parts <+: up := by
  obtain ⟨date, -, rfl⟩ := hw.split
  exact List.prefix_append _ _

/-- All ways of a batch are of one length. -/
theorem length_eq (hw : b.Way m up) (hw' : b.Way m' up') : up.length = up'.length := by
  obtain ⟨date, -, rfl⟩ := hw.split
  obtain ⟨date', -, rfl⟩ := hw'.split
  rw [List.length_append, List.length_append, length_dateFolders b.settings date date']

theorem ne_placeOf (hw : b.Way m up) (h : names.length ≤ up.length) :
    v.place ++ names ≠ v.placeOf m.2 := by
  rw [hw.placeOf_eq v]
  refine ne_of_length_lt ?_
  rw [List.length_append, List.length_singleton]
  omega

/-- The folders of a date have other names than notes. -/
theorem cases_of_prefix (hw : b.Way m up) (hp : names <+: up) :
    names <+: (Path.ofString b.settings.targetFolder).parts ∨
      ∃ cs : List Char, names.getLast? = some (String.ofList cs) ∧
        ∀ c ∈ cs, c.isDigit = true := by
  obtain ⟨date, -, rfl⟩ := hw.split
  rcases List.prefix_or_prefix_of_prefix hp (List.prefix_append _ _) with h | ⟨x, rfl⟩
  · exact Or.inl h
  · have hx := (List.prefix_append_right_inj _).1 hp
    rcases List.eq_nil_or_concat' x with rfl | ⟨front, last, rfl⟩
    · exact Or.inl ⟨[], by rw [List.append_nil, List.append_nil]⟩
    · have hlast : last ∈ b.settings.dateFolders date := hx.subset (by simp)
      obtain ⟨cs, rfl, -, hd⟩ := digits_of_mem_dateFolders hlast
      refine Or.inr ⟨cs, ?_, hd⟩
      rw [← List.append_assoc, List.getLast?_concat]

/-- No note that can be moved is on the way to a destination. -/
theorem source_not_on_way (hw : b.Way m up) (hw' : b.Way m' up') (ht : d.IsTree)
    (hn : m'.1 ∈ v.notesOn d) (hm' : b.Plans m') (hclear : v.IsClear d up')
    (hp : names <+: up) : v.place ++ names ≠ v.placeOf m'.1.path := by
  intro heq
  rcases hw.cases_of_prefix hp with htarget | ⟨cs, hlast, hd⟩
  · refine hclear names (htarget.trans hw'.target_prefix) ?_
    rw [heq]
    exact isFile_of_mem_notesOn ht hn
  · -- the name of the note would be a number, which has no extension
    have hname := getLast?_placeOf_path ht hn
    rw [← heq, List.getLast?_append, hlast] at hname
    have hext := extension_eq_of_mem_notesOn ht hn
    have hname' : m'.1.name = String.ofList cs := by simpa using hname.symm
    rw [hname', extensionOf_of_digits hd] at hext
    have hc := hm'.candidate
    rw [isCandidate, Bool.and_eq_true, decide_eq_true_iff, hext] at hc
    exact absurd hc.1 (by decide)

end Way

/-! ## The folders that a batch makes -/

/-- The names lead to a folder that a batch makes, or to one above it. -/
def Leads (b : Batch) (notes : List Note) (names : List String) : Prop :=
  ∃ folder ∈ b.folders notes, names <+: (Path.ofString folder).parts

theorem Leads.above (h : b.Leads notes names) {more : List String} (hp : more <+: names) :
    b.Leads notes more := by
  obtain ⟨folder, hfolder, hnames⟩ := h
  exact ⟨folder, hfolder, hp.trans hnames⟩

theorem leads_folderOf (hm : m ∈ b.moves notes) :
    b.Leads notes (Path.ofString (folderOf m.2)).parts :=
  ⟨_, List.mem_cons_of_mem _ (List.mem_map_of_mem hm), List.prefix_refl _⟩

theorem leads_of_way (hw : b.Way m up) (hm : m ∈ b.moves notes) : b.Leads notes up := by
  have h := leads_folderOf hm
  rwa [hw.parts_folderOf] at h

theorem onWays_iff {p : Place} :
    b.OnWays v d notes p ↔
      ∃ names, names ≠ [] ∧ p = v.place ++ names ∧ b.Leads notes names ∧
        (v.spot names).Accepted d := by
  constructor
  · rintro ⟨folder, hfolder, names, hne, hp, rfl, hacc⟩
    exact ⟨names, hne, rfl, ⟨folder, hfolder, hp⟩, hacc⟩
  · rintro ⟨names, hne, rfl, ⟨folder, hfolder, hp⟩, hacc⟩
    exact ⟨folder, hfolder, names, hne, hp, rfl, hacc⟩

namespace Ready

theorem way_of_mem_moves (hr : b.Ready v d) (hl : ∀ n ∈ notes, n ∈ v.notesOn d)
    (hm : m ∈ b.moves notes) : ∃ up, b.Way m up := by
  obtain ⟨hn, hp⟩ := mem_moves_iff.1 hm
  exact hr.way hp (hl _ hn)

theorem cases_of_leads (hr : b.Ready v d) (hl : ∀ n ∈ notes, n ∈ v.notesOn d)
    (h : b.Leads notes names) :
    names <+: (Path.ofString b.settings.targetFolder).parts ∨
      ∃ m ∈ b.moves notes, ∃ up, b.Way m up ∧ names <+: up := by
  obtain ⟨folder, hfolder, hp⟩ := h
  rcases List.mem_cons.1 hfolder with rfl | hfolder
  · exact Or.inl hp
  · obtain ⟨m, hm, rfl⟩ := List.mem_map.1 hfolder
    obtain ⟨up, hw⟩ := hr.way_of_mem_moves hl hm
    rw [hw.parts_folderOf] at hp
    exact Or.inr ⟨m, hm, up, hw, hp⟩

/-- No destination is a folder that the batch makes. -/
theorem destination_not_leading (hr : b.Ready v d) (hl : ∀ n ∈ notes, n ∈ v.notesOn d)
    (hw : b.Way m up) (h : b.Leads notes names) : v.place ++ names ≠ v.placeOf m.2 := by
  rcases hr.cases_of_leads hl h with hp | ⟨m', -, up', hw', hp⟩
  · exact hw.ne_placeOf (hp.trans hw.target_prefix).length_le
  · exact hw.ne_placeOf (hp.length_le.trans (hw'.length_eq hw).le)

/-- No note that can be moved is at the place of a folder that the batch makes. -/
theorem source_not_leading (hr : b.Ready v d) (hl : ∀ n ∈ notes, n ∈ v.notesOn d)
    (hm : m ∈ b.moves notes) (hw : b.Way m up) (hclear : v.IsClear d up)
    (h : b.Leads notes names) : v.place ++ names ≠ v.placeOf m.1.path := by
  obtain ⟨hn, hplans⟩ := mem_moves_iff.1 hm
  rcases hr.cases_of_leads hl h with hp | ⟨m', -, up', hw', hp⟩
  · exact hw.source_not_on_way hw hr.isTree (hl _ hn) hplans hclear (hp.trans hw.target_prefix)
  · exact hw'.source_not_on_way hw hr.isTree (hl _ hn) hplans hclear hp

end Ready

end Batch

end NoteArchive
