import NoteArchive.Proofs.Archive.Ways

/-!
# What a batch has reached

Failures from outside can keep a batch from moving a note or from making a folder.  What it did move
and make is still as it was decided, and does not get in the way of the rest.

* `Batch.Reached`: the notes in `moved` went to destinations that were open at the beginning, and
  apart from that only folders were made.
* `isFile_iff_of_leads`, `isClear_iff_of_leads`: on the ways of a batch the files stay the same.
* `get?_destination_of_not_moved`, `isOpen_of_not_moved`: a destination stays as it was until a note
  is moved there.
* `folder_cases`: which folders can be new.
* `of_mem_moves_after`, `leads_of_leads_after`, `isOpen_of_isOpen_after`: what there is to do
  afterwards was there to do before, or is at its destination.
* `reached_of_run`: whatever fails from outside, a batch with a result has reached this.
-/

namespace NoteArchive

open Act Vault

variable {v : Vault} {b : Batch} {d₀ d d' : Disk} {notes done rest : List Note} {n : Note}
  {m m' : Note × String} {moved failed : List (Note × String)} {up names : List String}
  {t : Tally} {w w' : World} {label : String}

namespace Batch

/-- The notes in `moved` are among those that have to go.  They were moved to destinations that were
open at the beginning, and apart from that only folders on the ways of the batch were made. -/
structure Reached (b : Batch) (v : Vault) (notes : List Note) (d₀ : Disk)
    (moved : List (Note × String)) (d : Disk) : Prop where
  mem : ∀ m ∈ moved, m ∈ b.moves notes
  isOpen : ∀ m ∈ moved, v.IsOpen d₀ m.2 ∧ v.TakesNote d₀ m.1
  carries : d₀.Carries (moved.map v.placesOf) (b.OnWays v d₀ notes) d

theorem Reached.of_grows (ht : d₀.IsTree) (hg : d₀.Grows (b.OnWays v d₀ notes) d) :
    b.Reached v notes d₀ [] d where
  mem := by simp
  isOpen := by simp
  carries := .of_grows ht hg

theorem Progress.reached (hnotes : notes = done ++ rest)
    (hP : b.Progress v notes d₀ done t moved failed d)
    (hopen : ∀ m ∈ moved, v.IsOpen d₀ m.2 ∧ v.TakesNote d₀ m.1) :
    b.Reached v notes d₀ moved d where
  mem m hm := by
    obtain ⟨hdone, hplans⟩ := hP.plans_of_moved hm
    exact mem_moves_iff.2 ⟨hnotes ▸ List.mem_append_left _ hdone, hplans⟩
  isOpen := hopen
  carries := hP.carries

/-- At the destination of a note that was moved a file is. -/
theorem Reached.isFile_destination (hR : b.Reached v notes d₀ moved d) (hm : m ∈ moved) :
    d.IsFile (v.placeOf m.2) :=
  hR.carries.isFile_target (List.mem_map_of_mem (f := v.placesOf) hm)

/-- So a destination that is open is not that of such a note. -/
theorem Reached.ne_of_isOpen (hR : b.Reached v notes d₀ moved d) (hm' : m' ∈ moved)
    (hopen : v.IsOpen d m.2) : m'.2 ≠ m.2 := by
  intro hD
  have hfile := hR.isFile_destination hm'
  rw [hD] at hfile
  exact Disk.not_isFile_of_none hopen.free hfile

theorem Lists.note_ext (hl : Lists v d₀ notes) {n n' : Note} (hn : n ∈ notes) (hn' : n' ∈ notes)
    (hpath : n.path = n'.path) : n = n' :=
  List.inj_on_of_nodup_map (List.pairwise_map.2 hl.nodup) hn hn' hpath

/-- A note goes to one destination. -/
theorem eq_of_mem_moves (hm : m ∈ b.moves notes) (hm' : m' ∈ b.moves notes)
    (hnote : m.1 = m'.1) : m = m' := by
  have hv := (mem_moves_iff.1 hm).2.verdict
  rw [hnote, (mem_moves_iff.1 hm').2.verdict] at hv
  exact Prod.ext hnote (Verdict.move.inj hv).symm

/-! ## Names and destinations -/

section Names

variable (hr : b.Ready v d₀) (hl : Lists v d₀ notes)

include hr hl

theorem destination_eq_of_name (hm : m ∈ b.moves notes) (hm' : m' ∈ b.moves notes)
    (hname : m'.1.name = m.1.name) : m'.2 = m.2 := by
  obtain ⟨hn, hp⟩ := mem_moves_iff.1 hm
  obtain ⟨hn', hp'⟩ := mem_moves_iff.1 hm'
  refine destination_unique hp' hp hname ?_
  rw [extension_eq_of_mem_notesOn hr.isTree (hl.mem _ hn),
    extension_eq_of_mem_notesOn hr.isTree (hl.mem _ hn'), hname]

theorem name_eq_of_destination (hm : m ∈ b.moves notes) (hm' : m' ∈ b.moves notes)
    (hD : m'.2 = m.2) : m'.1.name = m.1.name := by
  obtain ⟨hn, hp⟩ := mem_moves_iff.1 hm
  obtain ⟨hn', hp'⟩ := mem_moves_iff.1 hm'
  have hlast := hp.getLast?_placeOf
    (Path.isPart_of_isName (isName_of_mem_notesOn hr.isTree (hl.mem _ hn))) v
  have hlast' := hp'.getLast?_placeOf
    (Path.isPart_of_isName (isName_of_mem_notesOn hr.isTree (hl.mem _ hn'))) v
  rw [hD, hlast] at hlast'
  exact (Option.some.inj hlast').symm

end Names

/-! ## What stays as it was -/

section Along

variable (hr : b.Ready v d₀) (hl : Lists v d₀ notes) (hR : b.Reached v notes d₀ moved d)

include hr hl hR

/-- To one destination only one note is moved. -/
theorem eq_of_moved (hm : m ∈ moved) (hm' : m' ∈ moved) (hD : m.2 = m'.2) : m = m' := by
  obtain ⟨hn, -⟩ := mem_moves_iff.1 (hR.mem m hm)
  obtain ⟨hn', -⟩ := mem_moves_iff.1 (hR.mem m' hm')
  have hplaces : v.placesOf m = v.placesOf m' :=
    List.inj_on_of_nodup_map hR.carries.targets (List.mem_map_of_mem hm) (List.mem_map_of_mem hm')
      (congrArg v.placeOf hD)
  have hpath := path_eq_of_placeOf_eq hr.isTree (hl.mem _ hn) (hl.mem _ hn')
    (congrArg Prod.fst hplaces)
  exact Prod.ext (hl.note_ext hn hn' hpath) hD

/-- No note that was moved was at the place of a folder that the batch makes. -/
theorem source_of_moved_not_leading (hm : m ∈ moved) (h : b.Leads notes names) :
    v.place ++ names ≠ v.placeOf m.1.path := by
  have hmoves := hR.mem m hm
  obtain ⟨up, hway⟩ := hr.way_of_mem_moves hl.mem hmoves
  -- a source on the way of a folder would be a file on the way to its own destination
  have hclear := (hR.isOpen m hm).1.clear
  rw [hway.dropLast_parts] at hclear
  exact hr.source_not_leading hl.mem hmoves hway hclear h

/-- The files in the way of the folders of a batch stay, and there are no new ones. -/
theorem isFile_iff_of_leads (h : b.Leads notes names) :
    d.IsFile (v.place ++ names) ↔ d₀.IsFile (v.place ++ names) := by
  constructor
  · intro hfile
    rcases hR.carries.isFile_cases hfile with ⟨hf, -⟩ | ⟨p, hp, heq⟩
    · exact hf
    · obtain ⟨m, hm, rfl⟩ := List.mem_map.1 hp
      obtain ⟨up, hway⟩ := hr.way_of_mem_moves hl.mem (hR.mem m hm)
      exact absurd heq (hr.destination_not_leading hl.mem hway h)
  · rintro ⟨bytes, hb⟩
    refine ⟨bytes, hR.carries.get?_of_some hb ?_⟩
    intro p hp heq
    obtain ⟨m, hm, rfl⟩ := List.mem_map.1 hp
    exact source_of_moved_not_leading hr hl hR hm h heq

theorem isClear_iff_of_leads (h : b.Leads notes names) :
    v.IsClear d names ↔ v.IsClear d₀ names := by
  constructor
  · intro hclear more hp hfile
    exact hclear more hp ((isFile_iff_of_leads hr hl hR (h.above hp)).2 hfile)
  · intro hclear more hp hfile
    exact hclear more hp ((isFile_iff_of_leads hr hl hR (h.above hp)).1 hfile)

/-- A destination is as it was as long as no note was moved to it. -/
theorem get?_destination_of_not_moved (hm : m ∈ b.moves notes)
    (hnot : ∀ m' ∈ moved, m'.2 ≠ m.2) : d.get? (v.placeOf m.2) = d₀.get? (v.placeOf m.2) := by
  obtain ⟨up, hway⟩ := hr.way_of_mem_moves hl.mem hm
  obtain ⟨hn, hplans⟩ := mem_moves_iff.1 hm
  have hother : ∀ p ∈ moved.map v.placesOf, v.placeOf m.2 ≠ p.1 ∧ v.placeOf m.2 ≠ p.2 := by
    intro p hp
    obtain ⟨m', hm', rfl⟩ := List.mem_map.1 hp
    obtain ⟨hn', hplans'⟩ := mem_moves_iff.1 (hR.mem m' hm')
    constructor
    · intro heq
      exact hnot m' hm' (destination_eq_of_source hr.isTree hplans hplans' (hl.mem _ hn)
        (hl.mem _ hn') heq).symm
    · intro heq
      exact hnot m' hm' (destination_eq_of_target hr.isTree hplans hplans' (hl.mem _ hn)
        (hl.mem _ hn') heq).symm
  rcases hR.carries.elsewhere _ hother with heq | ⟨-, -, hways⟩
  · exact heq
  · obtain ⟨names, -, heq, hlead, -⟩ := onWays_iff.1 hways
    exact absurd heq.symm (hr.destination_not_leading hl.mem hway hlead)

/-- A destination that was open at the beginning is open as long as no note was moved to it. -/
theorem isOpen_of_not_moved (hm : m ∈ b.moves notes) (hopen : v.IsOpen d₀ m.2)
    (hnot : ∀ m' ∈ moved, m'.2 ≠ m.2) : v.IsOpen d m.2 := by
  obtain ⟨up, hway⟩ := hr.way_of_mem_moves hl.mem hm
  have hclear := hopen.clear
  rw [hway.dropLast_parts] at hclear
  refine ⟨hopen.accepted.of_longestPath_eq hR.carries.longestPath_eq, ?_, ?_⟩
  · rw [get?_destination_of_not_moved hr hl hR hm hnot, hopen.free]
  · rw [hway.dropLast_parts]
    exact (isClear_iff_of_leads hr hl hR (leads_of_way hway hm)).2 hclear

/-- Where a note was moved away, nothing is left. -/
theorem get?_source_of_moved (hm : m ∈ moved) : d.get? (v.placeOf m.1.path) = none := by
  rcases hR.carries.atSource _ (List.mem_map_of_mem hm) with hnone | ⟨-, hways⟩
  · exact hnone
  · obtain ⟨names, -, heq, hlead, -⟩ := onWays_iff.1 hways
    exact absurd heq.symm (source_of_moved_not_leading hr hl hR hm hlead)

/-- A folder is either one that was there, or one that the batch makes where nothing is in the
way. -/
theorem folder_cases {p : Place} (hf : d.get? p = some .folder) :
    d₀.get? p = some .folder ∨
      (d₀.get? p = none ∧ ∃ names, names ≠ [] ∧ p = v.place ++ names ∧ b.Leads notes names ∧
        (v.spot names).Accepted d₀ ∧ v.IsClear d₀ names) := by
  rcases hR.carries.folder_cases hf with hf₀ | hways
  · exact Or.inl hf₀
  · obtain ⟨names, hne, rfl, hlead, hacc⟩ := onWays_iff.1 hways
    have hclear : v.IsClear d names := isClear_of_folder hR.carries.isTree hf
    have hclear₀ := (isClear_iff_of_leads hr hl hR hlead).1 hclear
    rcases d₀.get?_cases (v.place ++ names) with hnone | hf₀ | hfile
    · exact Or.inr ⟨hnone, names, hne, rfl, hlead, hacc, hclear₀⟩
    · exact Or.inl hf₀
    · exact absurd hfile (hclear₀ names (List.prefix_refl names))

end Along

/-! ## What is left to do -/

section After

variable (hr : b.Ready v d₀) (hR : b.Reached v (v.notesOn d₀) d₀ moved d)

include hr hR

/-- A note that has to go afterwards was not moved, or is where it was moved. -/
theorem of_mem_moves_after (hm : m ∈ b.moves (v.notesOn d)) :
    (m ∈ b.moves (v.notesOn d₀) ∧ ∀ m' ∈ moved, v.placeOf m.1.path ≠ v.placeOf m'.1.path) ∨
      ∃ m' ∈ moved, m'.2 = m.2 ∧ v.placeOf m.1.path = v.placeOf m'.2 := by
  have ht := hR.carries.isTree
  obtain ⟨hn, hplans⟩ := mem_moves_iff.1 hm
  obtain ⟨up, name, hnote⟩ := (mem_notesOn_iff ht).1 hn
  -- a file that is listed afterwards stayed, or was carried to where it is
  rcases hR.carries.isFile_cases (isFile_of_mem_notesOn ht hn) with ⟨hfile, hstays⟩ | ⟨p, hp, heq⟩
  · rw [hnote.placeOf_path ht] at hfile
    have hn₀ : m.1 ∈ v.notesOn d₀ :=
      (mem_notesOn_iff hr.isTree).2 ⟨up, name, hfile, hnote.shown, hnote.eq_ofPath⟩
    refine Or.inl ⟨mem_moves_iff.2 ⟨hn₀, hplans⟩, fun m' hm' => ?_⟩
    exact hstays _ (List.mem_map_of_mem (f := v.placesOf) hm')
  · obtain ⟨m', hm', rfl⟩ := List.mem_map.1 hp
    obtain ⟨hn', hplans'⟩ := mem_moves_iff.1 (hR.mem m' hm')
    have hpart := Path.isPart_of_isName (isName_of_mem_notesOn hr.isTree hn')
    have hname : m'.1.name = m.1.name := by
      have hlast := hplans'.getLast?_placeOf hpart v
      have hpath := getLast?_placeOf_path ht hn
      rw [heq] at hpath
      exact Option.some.inj (hlast.symm.trans hpath)
    refine Or.inr ⟨m', hm', destination_unique hplans' hplans hname ?_, heq⟩
    rw [extension_eq_of_mem_notesOn hr.isTree hn', extension_eq_of_mem_notesOn ht hn, hname]

/-- What a batch makes folders for afterwards, it made folders for before. -/
theorem leads_of_leads_after (h : b.Leads (v.notesOn d) names) :
    b.Leads (v.notesOn d₀) names := by
  obtain ⟨folder, hfolder, hp⟩ := h
  rcases List.mem_cons.1 hfolder with rfl | hfolder
  · exact ⟨_, List.mem_cons_self, hp⟩
  · obtain ⟨m, hm, rfl⟩ := List.mem_map.1 hfolder
    rcases of_mem_moves_after hr hR hm with ⟨hm₀, -⟩ | ⟨m', hm', hD, -⟩
    · exact (leads_folderOf hm₀).above hp
    · rw [← hD] at hp
      exact (leads_folderOf (hR.mem m' hm')).above hp

/-- A note that was not moved is still to be moved. -/
theorem mem_moves_after (hm : m ∈ b.moves (v.notesOn d₀)) (hnot : m ∉ moved) :
    m ∈ b.moves (v.notesOn d) := by
  have ht := hR.carries.isTree
  obtain ⟨hn, hplans⟩ := mem_moves_iff.1 hm
  obtain ⟨up, name, hnote⟩ := (mem_notesOn_iff hr.isTree).1 hn
  have hstays : ∀ p ∈ moved.map v.placesOf, v.placeOf m.1.path ≠ p.1 := by
    intro p hp heq
    obtain ⟨m', hm', rfl⟩ := List.mem_map.1 hp
    obtain ⟨hn', -⟩ := mem_moves_iff.1 (hR.mem m' hm')
    have hpath := path_eq_of_placeOf_eq hr.isTree hn hn' heq
    have hnote := (lists_notesOn hr.isTree v).note_ext hn hn' hpath
    exact hnot (eq_of_mem_moves hm (hR.mem m' hm') hnote ▸ hm')
  obtain ⟨bytes, hb⟩ := isFile_of_mem_notesOn hr.isTree hn
  have hfile : d.IsFile (v.placeOf m.1.path) := ⟨bytes, hR.carries.get?_of_some hb hstays⟩
  rw [hnote.placeOf_path hr.isTree] at hfile
  exact mem_moves_iff.2
    ⟨(mem_notesOn_iff ht).2 ⟨up, name, hfile, hnote.shown, hnote.eq_ofPath⟩, hplans⟩

/-- A destination that is open afterwards was open before. -/
theorem isOpen_of_isOpen_after (hm : m ∈ b.moves (v.notesOn d₀)) (hopen : v.IsOpen d m.2) :
    v.IsOpen d₀ m.2 := by
  have hl := lists_notesOn hr.isTree v
  obtain ⟨up, hway⟩ := hr.way_of_mem_moves hl.mem hm
  have hclear := hopen.clear
  rw [hway.dropLast_parts] at hclear
  refine ⟨hopen.accepted.of_longestPath_eq hR.carries.longestPath_eq.symm, ?_, ?_⟩
  · -- no note was moved there, and so it is as it was
    rw [← get?_destination_of_not_moved hr hl hR hm fun _ hm' => hR.ne_of_isOpen hm' hopen,
      hopen.free]
  · rw [hway.dropLast_parts]
    exact (isClear_iff_of_leads hr hl hR (leads_of_way hway hm)).1 hclear

end After

/-! ## A whole batch -/

/-- What is known of a batch whose target folder could be made. -/
theorem ready_of_ensureFolder (hne : b.settings.targetFolder ≠ "") (ht : w.disk.IsTree)
    (h : (v.ensureFolder b.settings.targetFolder).runIn w = (.ok (), w')) :
    b.Ready v w.disk := by
  obtain ⟨hin, hall⟩ := of_ensureFolder ht h
  have ht' := ((within_ensureFolder v _).of_runIn h ht).isTree ht
  refine ⟨ht, hne, hin, fun name hname => ?_⟩
  obtain ⟨-, e, he⟩ := hall _ (List.prefix_refl _) (List.ne_nil_of_mem hname)
  exact (ht'.names he name (List.mem_append_right _ hname)).short

/-- A destination to which a note is moved now was open at the beginning. -/
theorem isOpen_of_outcome (hr : b.Ready v d₀) (hl : Lists v d₀ notes)
    (hnotes : notes = done ++ n :: rest) (hP : b.Progress v notes d₀ done t moved failed d)
    (hopen : ∀ m ∈ moved, v.IsOpen d₀ m.2 ∧ v.TakesNote d₀ m.1) {t' : Tally}
    {moved' failed' : List (Note × String)} (ho : b.Outcome v n t d t' d' moved' failed')
    (hm : m ∈ moved') : v.IsOpen d₀ m.2 ∧ v.TakesNote d₀ m.1 := by
  have hmem : n ∈ notes := by simp [hnotes]
  have hlongest := hP.carries.longestPath_eq
  have hR := hP.reached hnotes hopen
  cases ho with
  | passed hc => cases hm
  | left hc hv => cases hm
  | refused hp hg => cases hm
  | @moved D d₁ _ hp hg hfm hin hsource htarget =>
    rw [List.mem_singleton.1 hm]
    obtain ⟨up, hway⟩ := hr.way hp (hl.mem n hmem)
    have hlead := leads_of_way hway (mem_moves_iff.2 ⟨hmem, hp⟩)
    have hfree := hP.free_of_fileMoved hr.isTree hl hnotes hp (hg.get?_of_none hfm.free)
    refine ⟨⟨htarget.of_longestPath_eq hlongest.symm, hfree, ?_⟩,
      hsource.of_longestPath_eq hlongest.symm⟩
    rw [hway.dropLast_parts]
    refine (isClear_iff_of_leads hr hl hR hlead).1 ?_
    -- all that is above the new place of the note is a folder
    rintro more ⟨r, hr⟩ hf
    have habove : d₁.get? (v.place ++ more) = some .folder := by
      refine hfm.folder_above (r := r ++ [n.name]) (by simp) ?_
      rw [hway.placeOf_eq v, ← hr, List.append_assoc, List.append_assoc]
    exact Disk.not_isFile_of_folder habove (hg.isFile_iff.2 hf)

/-- Whatever fails from outside, a batch has reached something, also where it has no result. -/
theorem reached_of_run (hr : b.Ready v w.disk) (hl : Lists v w.disk notes)
    {r : Except Failure Tally} (h : (b.run v label notes).runIn w = (r, w')) :
    ∃ moved, b.Reached v notes w.disk moved w'.disk := by
  have ht := hr.isTree
  rw [run] at h
  rcases runIn_bind_cases h with ⟨_, w₁, hensure, h⟩ | ⟨e, hensure, -⟩
  · have hgrows := (within_ensureFolder v _).of_runIn hensure ht
    rcases hrun : (b.runFrom v label {} notes).runIn w₁ with ⟨r₁, w₂⟩
    obtain ⟨t, moved, failed, rfl, hP, hopen⟩ := runFrom_induction
      (P := fun done t moved failed w₂ =>
        b.Progress v notes w.disk done t moved failed w₂.disk ∧
          ∀ m ∈ moved, v.IsOpen w.disk m.2 ∧ v.TakesNote w.disk m.1)
      (fun hnotes hP hstep => by
        obtain ⟨hP, hopen⟩ := hP
        obtain ⟨-, t', moved', failed', hr', ho⟩ :=
          step_cases hP.carries.isTree (hP.isFile_next ht hl hnotes) hstep
        refine ⟨t', moved', failed', hr', hP.step ht hl hnotes ho, ?_⟩
        exact List.forall_mem_append.2
          ⟨hopen, fun m hm => isOpen_of_outcome hr hl hnotes hP hopen ho hm⟩)
      (List.nil_append notes).symm
      ⟨Progress.start ht (hgrows.mono fun p hp => onWays_target hp), by simp⟩ hrun
    rw [runIn_bind_of_ok hrun] at h
    cases h
    exact ⟨moved, hP.reached (List.append_nil notes).symm hopen⟩
  · have hgrows := (within_ensureFolder v _).of_runIn hensure ht
    exact ⟨[], .of_grows ht (hgrows.mono fun p hp => onWays_target hp)⟩

end Batch

end NoteArchive
