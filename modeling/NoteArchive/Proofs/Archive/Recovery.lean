import NoteArchive.Proofs.Archive.Effect

/-!
# A batch after one that was kept from its work

Failures from outside can keep a batch from any of its moves and folders, and from looking at its
files at all.  The next batch lists the files anew and decides anew.  It comes to what one batch
would have come to in which nothing had failed.

* `Reached.again`: what a batch and the next one did is what one batch can do.
* `mem_both_iff`: together they moved what one batch moves.
* `folder_iff_of_again`: together they made the folders that one batch makes.
* `get?_eq_of_unmade`: where the target folder cannot be made, only folders on its way are.
-/

namespace NoteArchive

open Act Vault

variable {v : Vault} {b : Batch} {d₀ d₁ d₂ d : Disk} {m m' : Note × String}
  {moved₁ moved₂ moved : List (Note × String)} {w w₁ w₂ w' w₁' w₂' : World} {label : String}

namespace Batch

/-! ## Where the target folder can be made -/

section Again

variable (hr : b.Ready v d₀) (hapart : ((b.moves (v.notesOn d₀)).map Prod.snd).Nodup)
  (hR₁ : b.Reached v (v.notesOn d₀) d₀ moved₁ d₁) (hR₂ : b.Reached v (v.notesOn d₁) d₁ moved₂ d₂)

include hr hR₁ hR₂

/-- What the next batch moves, the first one had to move too. -/
theorem mem_moves_of_moved_again (hm : m ∈ moved₂) : m ∈ b.moves (v.notesOn d₀) := by
  rcases of_mem_moves_after hr hR₁ (hR₂.mem m hm) with ⟨hm₀, -⟩ | ⟨m', hm', hD, -⟩
  · exact hm₀
  · -- what is at its destination is not moved
    exact absurd hD (hR₁.ne_of_isOpen hm' (hR₂.isOpen m hm).1)

theorem isOpen_of_moved_again (hm : m ∈ moved₂) : v.IsOpen d₀ m.2 ∧ v.TakesNote d₀ m.1 := by
  obtain ⟨hopen, htakes⟩ := hR₂.isOpen m hm
  exact ⟨isOpen_of_isOpen_after hr hR₁ (mem_moves_of_moved_again hr hR₁ hR₂ hm) hopen,
    htakes.of_longestPath_eq hR₁.carries.longestPath_eq.symm⟩

/-- What both batches did together is what one can do. -/
theorem Reached.again : b.Reached v (v.notesOn d₀) d₀ (moved₁ ++ moved₂) d₂ where
  mem := List.forall_mem_append.2 ⟨hR₁.mem, fun m hm => mem_moves_of_moved_again hr hR₁ hR₂ hm⟩
  isOpen := List.forall_mem_append.2
    ⟨hR₁.isOpen, fun m hm => isOpen_of_moved_again hr hR₁ hR₂ hm⟩
  carries := by
    have hways : ∀ p, b.OnWays v d₁ (v.notesOn d₁) p → b.OnWays v d₀ (v.notesOn d₀) p := by
      intro p hp
      obtain ⟨names, hn, heq, hlead, hacc⟩ := onWays_iff.1 hp
      exact onWays_iff.2 ⟨names, hn, heq, leads_of_leads_after hr hR₁ hlead,
        hacc.of_longestPath_eq hR₁.carries.longestPath_eq.symm⟩
    rw [List.map_append]
    refine hR₁.carries.trans (hR₂.carries.mono hways) ?_ ?_ <;> intro p hp <;>
      obtain ⟨m, hm, rfl⟩ := List.mem_map.1 hp
    · have hm₀ := mem_moves_of_moved_again hr hR₁ hR₂ hm
      exact isFile_of_mem_notesOn hr.isTree (mem_moves_iff.1 hm₀).1
    · exact (isOpen_of_moved_again hr hR₁ hR₂ hm).1.free

variable (hJ₂ : b.Judged v d₁ (v.notesOn d₁) moved₂ d₂)
  (hR : b.Reached v (v.notesOn d₀) d₀ moved d) (hJ : b.Judged v d₀ (v.notesOn d₀) moved d)

include hapart hJ₂ hR hJ

/-- Both batches together moved what one batch moves. -/
theorem mem_both_iff (m : Note × String) : m ∈ moved₁ ++ moved₂ ↔ m ∈ moved := by
  have hl := lists_notesOn hr.isTree v
  have hboth := Reached.again hr hR₁ hR₂
  have hapart : ∀ m ∈ b.moves (v.notesOn d₀), ∀ m' ∈ b.moves (v.notesOn d₀),
      m.2 = m'.2 → m = m' :=
    fun m hm m' hm' hD => List.inj_on_of_nodup_map hapart hm hm' hD
  rw [mem_moved_iff_of_apart hJ hR hapart]
  constructor
  · exact fun hm => ⟨hboth.mem m hm, hboth.isOpen m hm⟩
  · rintro ⟨hm, hopen, htakes⟩
    by_cases hmoved : m ∈ moved₁
    · exact List.mem_append_left _ hmoved
    · -- the first batch left the note and its destination as they were, so the next one moves it
      have hnot : ∀ m' ∈ moved₁, m'.2 ≠ m.2 := by
        intro m' hm' hD
        rw [hapart m' (hR₁.mem m' hm') m hm hD] at hm'
        exact hmoved hm'
      obtain ⟨m', hm', hD, -⟩ := hJ₂.settled m (mem_moves_after hr hR₁ hm hmoved)
        (isOpen_of_not_moved hr hl hR₁ hm hopen hnot)
        (htakes.of_longestPath_eq hR₁.carries.longestPath_eq)
      rw [← hapart m' (hboth.mem m' (List.mem_append_right _ hm')) m hm hD]
      exact List.mem_append_right _ hm'

omit hapart hR hJ in
/-- A folder that the first batch makes where nothing is in the way is there after the next one. -/
theorem folder_of_leads_again {names : List String} (hn : names ≠ [])
    (hlead : b.Leads (v.notesOn d₀) names) (hacc : (v.spot names).Accepted d₀)
    (hclear : v.IsClear d₀ names) : d₂.get? (v.place ++ names) = some .folder := by
  have hl := lists_notesOn hr.isTree v
  have ht₁ := hR₁.carries.isTree
  have hr₁ : b.Ready v d₁ := ⟨ht₁, hr.ne_empty, hr.inside, hr.short⟩
  -- what the next batch still has to do for the folder, it does
  have hmake : b.Leads (v.notesOn d₁) names → d₂.get? (v.place ++ names) = some .folder := by
    intro hlead₁
    have hclear₁ := (isClear_iff_of_leads hr hl hR₁ hlead).2 hclear
    rw [folder_iff hr₁ (lists_notesOn ht₁ v) hJ₂ hR₂]
    rcases d₁.get?_cases (v.place ++ names) with hnone | hfolder | hfile
    · exact Or.inr ⟨hnone, names, hn, rfl, hlead₁,
        hacc.of_longestPath_eq hR₁.carries.longestPath_eq, hclear₁⟩
    · exact Or.inl hfolder
    · exact absurd hfile (hclear₁ names (List.prefix_refl names))
  obtain ⟨folder, hfolder, hp⟩ := hlead
  rcases List.mem_cons.1 hfolder with rfl | hfolder
  · exact hmake ⟨_, List.mem_cons_self, hp⟩
  · obtain ⟨m, hm, rfl⟩ := List.mem_map.1 hfolder
    by_cases hmoved : m ∈ moved₁
    · -- the note is at its destination, and above it is the folder
      obtain ⟨up, hway⟩ := hr.way_of_mem_moves hl.mem hm
      have hboth := Reached.again hr hR₁ hR₂
      obtain ⟨bytes, hb⟩ := hboth.isFile_destination (List.mem_append_left _ hmoved)
      rw [hway.parts_folderOf] at hp
      obtain ⟨more, rfl⟩ := hp
      rw [hway.placeOf_eq v, List.append_assoc, ← List.append_assoc v.place] at hb
      exact hR₂.carries.isTree.folder_of_append hb (by simp)
    · exact hmake ((leads_folderOf (mem_moves_after hr hR₁ hm hmoved)).above hp)

omit hapart in
/-- Both batches together made the folders that one batch makes. -/
theorem folder_iff_of_again (p : Place) :
    d₂.get? p = some .folder ↔ d.get? p = some .folder := by
  have hl := lists_notesOn hr.isTree v
  have hboth := Reached.again hr hR₁ hR₂
  rw [folder_iff hr hl hJ hR]
  constructor
  · exact folder_cases hr hl hboth
  · rintro (hf | ⟨-, names, hn, rfl, hlead, hacc, hclear⟩)
    · exact hboth.carries.folder hf
    · exact folder_of_leads_again hr hR₁ hR₂ hJ₂ hn hlead hacc hclear

theorem get?_eq_of_again (p : Place) : d₂.get? p = d.get? p := by
  refine (Reached.again hr hR₁ hR₂).carries.get?_eq hR.carries (fun q => ?_)
    (folder_iff_of_again hr hR₁ hR₂ hJ₂ hR hJ) p
  simp only [List.mem_map, mem_both_iff hr hapart hR₁ hR₂ hJ₂ hR hJ]

end Again

/-! ## Where the target folder cannot be made -/

/-- Attempts to make a folder, one after another that was kept from it, come to the same as one. -/
theorem get?_eq_of_unmade {folder : String} {r r₁ r₂ : Except Failure Unit} (ht : w.disk.IsTree)
    (hroot : w.disk.get? v.place = some .folder)
    (hw₁ : w₁.Calm) (hd₁ : w₁.disk = w'.disk) (hw₂ : w₂.Calm) (hd₂ : w₂.disk = w.disk)
    (h : (v.ensureFolder folder).runIn w = (r, w'))
    (h₁ : (v.ensureFolder folder).runIn w₁ = (r₁, w₁'))
    (h₂ : (v.ensureFolder folder).runIn w₂ = (r₂, w₂')) (p : Place) :
    w₁'.disk.get? p = w₂'.disk.get? p := by
  have hgrows := (within_ensureFolder v folder).of_runIn h ht
  rw [← hd₁] at hgrows
  have ht₁ := hgrows.isTree ht
  have hgrows₁ := (within_ensureFolder v folder).of_runIn h₁ ht₁
  have ht₂ : w₂.disk.IsTree := hd₂ ▸ ht
  have hgrows₂ := (within_ensureFolder v folder).of_runIn h₂ ht₂
  have hroot₁ := hgrows.get?_of_some hroot
  have hlong := hgrows.longestPath_eq
  have hfiles : ∀ q, w₁.disk.IsFile q ↔ w₂.disk.IsFile q := fun q => hd₂ ▸ hgrows.isFile_iff
  rw [← hd₂] at hroot hlong
  -- a folder that any of the three attempts made is there after the two in which nothing failed
  have hfolders : ∀ q, w₁'.disk.get? q = some .folder ↔ w₂'.disk.get? q = some .folder := by
    intro q
    constructor
    · intro hq
      rcases hgrows₁.get?_cases q with hsame | ⟨hnone, -, -⟩
      · rw [hsame] at hq
        rcases hgrows.get?_cases q with hsame₀ | ⟨hnone, -, -⟩
        · rw [hsame₀, ← hd₂] at hq
          exact hgrows₂.get?_of_some hq
        · exact folder_of_ensureFolder_again ht ht₂ hw₂ (congrArg _ hd₂) hroot
            (fun more _ hfile => hd₂ ▸ hfile) h h₂ hnone (hd₁ ▸ hq)
      · exact folder_of_ensureFolder_again ht₁ ht₂ hw₂ hlong.symm hroot
          (fun more _ => (hfiles _).2) h₁ h₂ hnone hq
    · intro hq
      rcases hgrows₂.get?_cases q with hsame | ⟨hnone, -, -⟩
      · rw [hsame, hd₂] at hq
        exact hgrows₁.get?_of_some (hgrows.get?_of_some hq)
      · exact folder_of_ensureFolder_again ht₂ ht₁ hw₁ hlong hroot₁
          (fun more _ => (hfiles _).1) h₂ h₁ hnone hq
  have hall := (Disk.Carries.of_grows ht (hgrows.mono fun _ _ => trivial)).grows
    (hgrows₁.mono fun _ _ => trivial)
  have hone := Disk.Carries.of_grows ht₂ hgrows₂
  rw [hd₂] at hone
  exact hall.get?_eq hone (fun _ => Iff.rfl) hfolders p

/-! ## The runs -/

section Runs

variable {label₁ label₂ : String} {r r₁ : Except Failure Tally} (ht : w.disk.IsTree)
  (hroot : w.disk.get? v.place = some .folder)
  (h : (b.run v label (v.notesOn w.disk)).runIn w = (r, w')) (hw₁ : w₁.Calm)
  (hd₁ : w₁.disk = w'.disk) (h₁ : (b.run v label₁ (v.notesOn w₁.disk)).runIn w₁ = (r₁, w₁'))
  (hw₂ : w₂.Calm) (hd₂ : w₂.disk = w.disk)

include ht hroot h hw₁ hd₁ h₁ hw₂ hd₂

/-- Where one batch has a result, the next one has a result too. -/
theorem get?_eq_of_made {t₂ : Tally} (hne : b.settings.targetFolder ≠ "")
    (hapart : ((b.moves (v.notesOn w.disk)).map Prod.snd).Nodup)
    (h₂ : (b.run v label₂ (v.notesOn w₂.disk)).runIn w₂ = (.ok t₂, w₂')) (p : Place) :
    w₁'.disk.get? p = w₂'.disk.get? p := by
  have hl := lists_notesOn ht v
  obtain ⟨_, w₃, hensure₂, -⟩ := runIn_bind_ok h₂
  have hlast := judged_of_run hne (hd₂ ▸ ht) (hd₂ ▸ hroot) hw₂ (hd₂ ▸ hl) h₂
  rw [hd₂] at hlast
  obtain ⟨hr, moved, failed, hP, hJ⟩ := hlast
  obtain ⟨moved₁, hR₁⟩ := reached_of_run hr hl h
  rw [← hd₁] at hR₁
  have ht₁ := hR₁.carries.isTree
  have hroot₁ := hR₁.carries.folder hroot
  -- the first batch put no file in the way of the target folder
  obtain ⟨w₄, hensure₁⟩ := runIn_ensureFolder_again (hd₂ ▸ ht) ht₁ hw₁
    (hd₂ ▸ hR₁.carries.longestPath_eq) hroot₁ (fun more hp hfile => by
      rw [hd₂]
      exact (isFile_iff_of_leads hr hl hR₁ ⟨_, List.mem_cons_self, hp⟩).1 hfile) hensure₂
  obtain ⟨t₁, w₅, hrun₁⟩ := exists_run_of_ensureFolder ht₁ (lists_notesOn ht₁ v) hensure₁ label₁
  rw [hrun₁] at h₁
  cases h₁
  obtain ⟨-, moved₂, failed₂, hP₂, hJ₂⟩ :=
    judged_of_run hne ht₁ hroot₁ hw₁ (lists_notesOn ht₁ v) hrun₁
  exact get?_eq_of_again hr hapart hR₁ (hP₂.reached (List.append_nil _).symm hJ₂.isOpen) hJ₂
    (hP.reached (List.append_nil _).symm hJ.isOpen) hJ p

/-- Where one batch fails at its target folder, so do both of the others. -/
theorem get?_eq_of_failed {e : Failure}
    (h₂ : (v.ensureFolder b.settings.targetFolder).runIn w₂ = (.error e, w₂')) (p : Place) :
    w₁'.disk.get? p = w₂'.disk.get? p := by
  have hfails : ∀ w₃, (v.ensureFolder b.settings.targetFolder).runIn w₂ ≠ (.ok (), w₃) := by
    intro w₃ hok
    rw [h₂] at hok
    cases hok
  rcases runIn_bind_cases h with ⟨_, w₃, hensure, -⟩ | ⟨e', hensure, -⟩
  · obtain ⟨w₄, hok⟩ := runIn_ensureFolder_again ht (hd₂ ▸ ht) hw₂ (congrArg _ hd₂)
      (hd₂ ▸ hroot) (fun more _ hfile => hd₂ ▸ hfile) hensure
    exact absurd hok (hfails w₄)
  · have hgrows := (within_ensureFolder v _).of_runIn hensure ht
    rw [← hd₁] at hgrows
    rcases runIn_bind_cases h₁ with ⟨_, w₃, hensure₁, -⟩ | ⟨e₁, hensure₁, -⟩
    · obtain ⟨w₄, hok⟩ := runIn_ensureFolder_again (hgrows.isTree ht) (hd₂ ▸ ht) hw₂
        (by rw [hd₂, hgrows.longestPath_eq]) (hd₂ ▸ hroot)
        (fun more _ hfile => hgrows.isFile_iff.2 (hd₂ ▸ hfile)) hensure₁
      exact absurd hok (hfails w₄)
    · exact get?_eq_of_unmade ht hroot hw₁ hd₁ hw₂ hd₂ hensure hensure₁ h₂ p

end Runs

end Batch

/-- A batch of all files of a vault may be kept from any of its folders and moves by failures from
outside.  When another one follows in which nothing fails, over the files as they are listed then,
the disk is as after one such batch on the disk of the beginning, whatever their results are.  This
needs only that no two notes have to go to one destination, and not that nothing is in the way. -/
theorem next_batch_recovers (v : Vault) (b : Batch) (label label₁ label₂ : String) (s : Settings)
    (w w₁ w₂ : World) (hs : b.settings = s.validated) (ht : w.disk.IsTree)
    (hroot : w.disk.get? v.place = some .folder)
    (hapart : ((b.moves (v.notesOn w.disk)).map Prod.snd).Nodup) (hw₁ : w₁.Calm)
    (hd₁ : w₁.disk = ((b.run v label (v.notesOn w.disk)).runIn w).2.disk) (hw₂ : w₂.Calm)
    (hd₂ : w₂.disk = w.disk) (p : Place) :
    ((b.run v label₁ (v.notesOn w₁.disk)).runIn w₁).2.disk.get? p =
      ((b.run v label₂ (v.notesOn w₂.disk)).runIn w₂).2.disk.get? p := by
  have hne : b.settings.targetFolder ≠ "" := hs ▸ s.targetFolder_validated_ne_empty
  rcases h : (b.run v label (v.notesOn w.disk)).runIn w with ⟨r, w'⟩
  rw [h] at hd₁
  rcases h₁ : (b.run v label₁ (v.notesOn w₁.disk)).runIn w₁ with ⟨r₁, w₁'⟩
  rcases h₂ : (b.run v label₂ (v.notesOn w₂.disk)).runIn w₂ with ⟨r₂, w₂'⟩
  have ht₂ : w₂.disk.IsTree := hd₂ ▸ ht
  rcases (Batch.run_cases ht₂ (Batch.lists_notesOn ht₂ v) h₂).2 with
    ⟨e, hunmade, -, -⟩ | ⟨t₂, -, -, rfl, -⟩
  · exact Batch.get?_eq_of_failed ht hroot h hw₁ hd₁ h₁ hw₂ hd₂ hunmade p
  · exact Batch.get?_eq_of_made ht hroot h hw₁ hd₁ h₁ hw₂ hd₂ hne hapart h₂ p

/-- The second of two notes cannot be moved at first, and is left to the next batch. -/
theorem next_batch_recovers_two_notes :
    let v : Vault := ⟨⟨"/", ["v"]⟩, ["v"]⟩
    let w : World := .ofDisk
      { entries := [(["v"], .folder), (["v", "05-03-2021.md"], .file [97]),
          (["v", "06-03-2021.md"], .file [98])] }
      { move := [none, some ⟨.other, "RuntimeError", "no"⟩] }
    let b : Batch := ⟨.usual, DateFormat.compileResolved DateFormat.usual, ⟨2024, 1, 1⟩⟩
    b.settings = Settings.usual.validated ∧ w.disk.IsTree ∧
      w.disk.get? v.place = some .folder ∧
      ((b.moves (v.notesOn w.disk)).map Prod.snd).Nodup ∧
      ∃ t w' w₁ w₂, (b.run v Batch.usualLabel (v.notesOn w.disk)).runIn w = (.ok t, w') ∧
        t.moved = 1 ∧ t.failed = 1 ∧ w₁.Calm ∧ w₁.disk = w'.disk ∧ w₂.Calm ∧ w₂.disk = w.disk ∧
        ∀ p, ((b.run v Batch.usualLabel (v.notesOn w₁.disk)).runIn w₁).2.disk.get? p =
          ((b.run v Batch.usualLabel (v.notesOn w₂.disk)).runIn w₂).2.disk.get? p := by
  intro v w b
  have hs : b.settings = Settings.usual.validated := by decide +kernel
  have ht : w.disk.IsTree := by decide
  have hnotes : v.notesOn w.disk =
      ["05-03-2021.md", "06-03-2021.md"].map fun s => Note.ofPath s s := by
    rw [notesOn_of_pairwise (by decide +kernel)]
    decide +kernel
  have hapart : ((b.moves (v.notesOn w.disk)).map Prod.snd).Nodup := by
    rw [hnotes]
    decide +kernel
  have hcounts : ((b.run v Batch.usualLabel (v.notesOn w.disk)).runIn w).1.toOption.map
      (fun t => (t.moved, t.failed)) = some (1, 1) := by
    rw [hnotes]
    decide +kernel
  rcases hrun : (b.run v Batch.usualLabel (v.notesOn w.disk)).runIn w with ⟨e | t, w'⟩ <;>
    rw [hrun] at hcounts
  · cases hcounts
  obtain ⟨hmoved, hfailed⟩ : t.moved = 1 ∧ t.failed = 1 := by
    simpa [Except.toOption] using hcounts
  have hd₁ : (World.ofDisk w'.disk).disk =
      ((b.run v Batch.usualLabel (v.notesOn w.disk)).runIn w).2.disk := by rw [hrun]; rfl
  exact ⟨hs, ht, rfl, hapart, t, w', .ofDisk w'.disk, .ofDisk w.disk, rfl, hmoved, hfailed, rfl,
    rfl, rfl, rfl, next_batch_recovers v b Batch.usualLabel Batch.usualLabel Batch.usualLabel .usual
      w (.ofDisk w'.disk) (.ofDisk w.disk) hs ht rfl hapart rfl hd₁ rfl rfl⟩

end NoteArchive
