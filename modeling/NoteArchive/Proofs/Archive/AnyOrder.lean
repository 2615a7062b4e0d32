import NoteArchive.Proofs.Archive.Effect

/-!
# The order of the files of a batch

Notes of one name go to one destination, so the order of the files decides which of them is moved
and which ones stay.  It decides nothing else, where nothing fails from outside.

* `destinations_perm`: in any order the batch moves notes to the same destinations.
* `counts_eq_of_perm`: so the counts are the same.
* `folder_iff_of_perm`, `occupied_iff_of_perm`: the same folders are made, and the same destinations
  are taken.
* `get?_eq_of_perm`: where no two notes that have to go have one name, the disks have the same view.
-/

namespace NoteArchive

open Act Vault

variable {v : Vault} {b : Batch} {d₀ d d' : Disk} {notes notes' : List Note}
  {m : Note × String} {moved moved' failed failed' : List (Note × String)}
  {names : List String} {t t' : Tally} {w w' : World}

namespace Batch

/-! ## Files in another order -/

theorem Lists.of_perm (h : Lists v d notes) (hperm : notes'.Perm notes) : Lists v d notes' where
  mem n hn := h.mem n (hperm.mem_iff.1 hn)
  nodup := (hperm.pairwise_iff Ne.symm).2 h.nodup

section Perm

variable (hperm : notes.Perm notes')

include hperm

theorem candidates_perm (b : Batch) : (b.candidates notes).Perm (b.candidates notes') :=
  hperm.filter _

theorem moves_perm (b : Batch) : (b.moves notes).Perm (b.moves notes') :=
  (candidates_perm hperm b).filterMap _

theorem leads_iff_of_perm : b.Leads notes names ↔ b.Leads notes' names := by
  have hfolders : ∀ folder, folder ∈ b.folders notes ↔ folder ∈ b.folders notes' := by
    intro folder
    simp only [folders, List.mem_cons, ((moves_perm hperm b).map fun m => folderOf m.2).mem_iff]
  simp only [Leads, hfolders]

end Perm

/-! ## Both batches -/

section Both

variable (hr : b.Ready v d₀) (hl : Lists v d₀ notes) (hl' : Lists v d₀ notes')
  (hperm : notes.Perm notes') (hR : b.Reached v notes d₀ moved d)
  (hJ : b.Judged v d₀ notes moved d) (hR' : b.Reached v notes' d₀ moved' d')
  (hJ' : b.Judged v d₀ notes' moved' d')

include hR in
theorem nodup_destinations : (moved.map Prod.snd).Nodup := by
  have htargets := hR.carries.targets
  rw [List.map_map] at htargets
  refine List.Nodup.of_map v.placeOf ?_
  rwa [List.map_map]

include hR hJ in
/-- A note is moved to each destination that is open, if the system takes the path of some note that
goes there, and to no other one. -/
theorem mem_destinations_iff {D : String} :
    D ∈ moved.map Prod.snd ↔
      ∃ m ∈ b.moves notes, m.2 = D ∧ v.IsOpen d₀ D ∧ v.TakesNote d₀ m.1 := by
  rw [List.mem_map]
  constructor
  · rintro ⟨m, hm, rfl⟩
    exact ⟨m, hR.mem m hm, rfl, hR.isOpen m hm⟩
  · rintro ⟨m, hm, rfl, hopen, htakes⟩
    obtain ⟨m', hm', hD, -⟩ := hJ.settled m hm hopen htakes
    exact ⟨m', hm', hD⟩

include hperm hR hJ hR' hJ' in
/-- In any order the batch moves notes to the same destinations. -/
theorem destinations_perm : (moved.map Prod.snd).Perm (moved'.map Prod.snd) := by
  refine (List.perm_ext_iff_of_nodup (nodup_destinations hR) (nodup_destinations hR')).2 ?_
  intro D
  rw [mem_destinations_iff hR hJ, mem_destinations_iff hR' hJ']
  simp only [(moves_perm hperm b).mem_iff]

include hperm hR hJ hR' hJ' in
/-- In any order the files are counted the same. -/
theorem counts_eq_of_perm (hP : b.Progress v notes d₀ notes t moved failed d)
    (hP' : b.Progress v notes' d₀ notes' t' moved' failed' d') :
    t.found = t'.found ∧ t.moved = t'.moved ∧ t.skipped = t'.skipped ∧ t.failed = t'.failed := by
  have hcandidates := (candidates_perm hperm b).length_eq
  have hmoves := (moves_perm hperm b).length_eq
  have hmoved : moved.length = moved'.length := by
    simpa using (destinations_perm hperm hR hJ hR' hJ').length_eq
  -- what has to go is moved or fails, and what does not have to go stays
  have hsplit := hP.perm.length_eq
  have hsplit' := hP'.perm.length_eq
  rw [List.length_append] at hsplit hsplit'
  have hskipped := hP.skipped
  have hskipped' := hP'.skipped
  refine ⟨?_, ?_, ?_, ?_⟩
  · rw [hP.found, hP'.found, hcandidates]
  · rw [hP.moved_eq, hP'.moved_eq, hmoved]
  · omega
  · rw [hP.failed_eq, hP'.failed_eq]
    omega

include hr hl hl' hperm hR hJ hR' hJ'

/-- In any order the batch makes the same folders. -/
theorem folder_iff_of_perm (p : Place) :
    d.get? p = some .folder ↔ d'.get? p = some .folder := by
  rw [folder_iff hr hl hJ hR, folder_iff hr hl' hJ' hR']
  simp only [leads_iff_of_perm hperm]

omit hl' hperm hJ hR' hJ' in
/-- A destination is taken when it was taken before, or when a note was moved to it. -/
theorem occupied_iff (hm : m ∈ b.moves notes) :
    d.get? (v.placeOf m.2) ≠ none ↔
      d₀.get? (v.placeOf m.2) ≠ none ∨ m.2 ∈ moved.map Prod.snd := by
  by_cases hmoved : m.2 ∈ moved.map Prod.snd
  · obtain ⟨m', hm', hD⟩ := List.mem_map.1 hmoved
    obtain ⟨bytes, hb⟩ := hR.isFile_destination hm'
    rw [hD] at hb
    exact iff_of_true (by rw [hb]; simp) (Or.inr hmoved)
  · have hnot : ∀ m' ∈ moved, m'.2 ≠ m.2 := fun m' hm' hD => hmoved (hD ▸ List.mem_map_of_mem hm')
    rw [get?_destination_of_not_moved hr hl hR hm hnot, or_iff_left hmoved]

/-- In any order the same destinations are taken. -/
theorem occupied_iff_of_perm (hm : m ∈ b.moves notes) :
    d.get? (v.placeOf m.2) ≠ none ↔ d'.get? (v.placeOf m.2) ≠ none := by
  rw [occupied_iff hr hl hR hm,
    occupied_iff hr hl' hR' ((moves_perm hperm b).mem_iff.1 hm),
    (destinations_perm hperm hR hJ hR' hJ').mem_iff]

/-- Where no two notes that have to go have one name, the order does not matter at all. -/
theorem get?_eq_of_perm (hnames : ((b.moves notes).map fun m => m.1.name).Nodup) (p : Place) :
    d.get? p = d'.get? p := by
  have hapart : ∀ m ∈ b.moves notes, ∀ m' ∈ b.moves notes, m.2 = m'.2 → m = m' := by
    intro m hm m' hm' hD
    exact List.inj_on_of_nodup_map hnames hm hm' (name_eq_of_destination hr hl hm' hm hD)
  have hmoves := fun m => (moves_perm hperm b).mem_iff (a := m)
  have hapart' : ∀ m ∈ b.moves notes', ∀ m' ∈ b.moves notes', m.2 = m'.2 → m = m' :=
    fun m hm m' hm' => hapart m ((hmoves m).2 hm) m' ((hmoves m').2 hm')
  have hmoved : ∀ m, m ∈ moved ↔ m ∈ moved' := by
    intro m
    rw [mem_moved_iff_of_apart hJ hR hapart, mem_moved_iff_of_apart hJ' hR' hapart',
      hmoves m]
  refine hR.carries.get?_eq hR'.carries (fun q => ?_)
    (folder_iff_of_perm hr hl hl' hperm hR hJ hR' hJ') p
  simp only [List.mem_map, hmoved]

end Both

end Batch

/-- Where nothing fails from outside, the order of the files of a vault matters neither for the
counts of a batch nor for the folders and the destinations that are taken afterwards.  It matters
for nothing where no two notes that have to go have one name. -/
theorem order_does_not_matter (v : Vault) (b : Batch) (label label' : String)
    (w w₁ w' w₁' : World) (s : Settings) (t t' : Tally) (notes notes' : List Note)
    (hs : b.settings = s.validated) (ht : w.disk.IsTree)
    (hroot : w.disk.get? v.place = some .folder) (hw : w.Calm) (hw₁ : w₁.Calm)
    (hsame : w₁.disk = w.disk) (hperm : notes.Perm (v.notesOn w.disk))
    (hperm' : notes'.Perm (v.notesOn w.disk))
    (h : (b.run v label notes).runIn w = (.ok t, w'))
    (h' : (b.run v label' notes').runIn w₁ = (.ok t', w₁')) :
    (t.found = t'.found ∧ t.moved = t'.moved ∧ t.skipped = t'.skipped ∧ t.failed = t'.failed) ∧
      (∀ p, w'.disk.get? p = some .folder ↔ w₁'.disk.get? p = some .folder) ∧
      (∀ m ∈ b.moves (v.notesOn w.disk),
        w'.disk.get? (v.placeOf m.2) ≠ none ↔ w₁'.disk.get? (v.placeOf m.2) ≠ none) ∧
      (((b.moves (v.notesOn w.disk)).map fun m => m.1.name).Nodup →
        ∀ p, w'.disk.get? p = w₁'.disk.get? p) := by
  have hne : b.settings.targetFolder ≠ "" := hs ▸ s.targetFolder_validated_ne_empty
  have hall := Batch.lists_notesOn ht v
  have hl := hall.of_perm hperm
  have hl' := hall.of_perm hperm'
  have hpp : notes.Perm notes' := hperm.trans hperm'.symm
  obtain ⟨hr, moved, failed, hP, hJ⟩ := Batch.judged_of_run hne ht hroot hw hl h
  rw [← hsame] at ht hroot hl'
  obtain ⟨-, moved', failed', hP', hJ'⟩ := Batch.judged_of_run hne ht hroot hw₁ hl' h'
  rw [hsame] at hP' hJ' hl'
  have hR := hP.reached (List.append_nil _).symm hJ.isOpen
  have hR' := hP'.reached (List.append_nil _).symm hJ'.isOpen
  have hmoves := Batch.moves_perm hperm b
  refine ⟨Batch.counts_eq_of_perm hpp hR hJ hR' hJ' hP hP',
    Batch.folder_iff_of_perm hr hl hl' hpp hR hJ hR' hJ', fun m hm => ?_, fun hnames => ?_⟩
  · exact Batch.occupied_iff_of_perm hr hl hl' hpp hR hJ hR' hJ' (hmoves.mem_iff.2 hm)
  · exact Batch.get?_eq_of_perm hr hl hl' hpp hR hJ hR' hJ'
      ((hmoves.map fun m => m.1.name).nodup_iff.2 hnames)

/-- Two notes of one name: the first one is moved in each order, and the other one stays. -/
theorem order_does_not_matter_for_two_notes :
    let v : Vault := ⟨⟨"/", ["v"]⟩, ["v"]⟩
    let w : World := .ofDisk
      { entries := [(["v"], .folder), (["v", "05-03-2021.md"], .file [97]), (["v", "b"], .folder),
          (["v", "b", "05-03-2021.md"], .file [98])] }
    let b : Batch := ⟨.usual, DateFormat.compileResolved DateFormat.usual, ⟨2024, 1, 1⟩⟩
    let notes := ["05-03-2021.md", "b/05-03-2021.md"].map (Note.ofPath "05-03-2021.md")
    let target : Place := ["v", "Old Daily Notes", "05-03-2021.md"]
    w.disk.IsTree ∧ w.disk.get? v.place = some .folder ∧ w.Calm ∧ v.notesOn w.disk = notes ∧
      ∃ t w' t' w₁', (b.run v Batch.usualLabel notes).runIn w = (.ok t, w') ∧
        (b.run v Batch.usualLabel notes.reverse).runIn w = (.ok t', w₁') ∧
        t.moved = 1 ∧ t.failed = 1 ∧ t.moved = t'.moved ∧ t.failed = t'.failed ∧
        w'.disk.get? target = some (.file [97]) ∧ w₁'.disk.get? target = some (.file [98]) ∧
        ∀ p, w'.disk.get? p = some .folder ↔ w₁'.disk.get? p = some .folder := by
  intro v w b notes target
  have hs : b.settings = Settings.usual.validated := by decide +kernel
  have ht : w.disk.IsTree := by decide
  have hnotes : v.notesOn w.disk = notes := by
    rw [notesOn_of_pairwise (by decide +kernel)]
    decide +kernel
  have hfirst : ((b.run v Batch.usualLabel notes).runIn w).1.toOption.map
        (fun t => (t.moved, t.failed)) = some (1, 1) ∧
      ((b.run v Batch.usualLabel notes).runIn w).2.disk.get? target = some (.file [97]) := by
    decide +kernel
  have hsecond : ((b.run v Batch.usualLabel notes.reverse).runIn w).1.toOption.isSome ∧
      ((b.run v Batch.usualLabel notes.reverse).runIn w).2.disk.get? target =
        some (.file [98]) := by
    decide +kernel
  rcases hrun : (b.run v Batch.usualLabel notes).runIn w with ⟨e | t, w'⟩ <;> rw [hrun] at hfirst
  · cases hfirst.1
  rcases hrun' : (b.run v Batch.usualLabel notes.reverse).runIn w with ⟨e | t', w₁'⟩ <;>
    rw [hrun'] at hsecond
  · cases hsecond.1
  obtain ⟨⟨-, hmoved, -, hfailed⟩, hfolders, -, -⟩ :=
    order_does_not_matter v b Batch.usualLabel Batch.usualLabel w w w' w₁' .usual t t' notes
      notes.reverse hs ht rfl rfl rfl rfl (by rw [hnotes])
      (by rw [hnotes]; exact List.reverse_perm notes) hrun hrun'
  obtain ⟨h₁, h₂⟩ : t.moved = 1 ∧ t.failed = 1 := by
    simpa [Except.toOption] using hfirst.1
  exact ⟨ht, rfl, rfl, hnotes, t, w', t', w₁', rfl, rfl, h₁, h₂, hmoved, hfailed, hfirst.2,
    hsecond.2, hfolders⟩

end NoteArchive
