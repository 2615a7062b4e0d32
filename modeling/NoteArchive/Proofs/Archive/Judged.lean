import NoteArchive.Proofs.Archive.Reached

/-!
# Along a batch where nothing fails from outside

* `step_of_open`, `folder_of_step`: what a note comes to that has to go.
* `Batch.Judged`: what holds after some notes of such a batch.  A note was moved only to a
  destination that was open at the beginning, and one note was moved to each of these.
* `Judged.step`: the next note keeps this.
* `judged_of_run`: so it holds when the batch comes to its end.
-/

namespace NoteArchive

open Act Vault

variable {v : Vault} {b : Batch} {d₀ d d' : Disk} {notes done rest : List Note} {n : Note}
  {D : String} {m m' : Note × String} {moved failed : List (Note × String)}
  {up names : List String} {t : Tally} {w w' : World} {label : String}

namespace Batch

/-! ## One note -/

/-- A note goes to its destination where nothing is in the way. -/
theorem step_of_open (hr : b.Ready v w.disk) (hw : w.Calm)
    (hroot : w.disk.get? v.place = some .folder) (hn : n ∈ v.notesOn d₀) (ht₀ : d₀.IsTree)
    (hp : b.Plans (n, D)) (hway : b.Way (n, D) up)
    (hfile : w.disk.IsFile (v.placeOf n.path)) (hopen : v.IsOpen w.disk D)
    (htakes : v.TakesNote w.disk n) {r : Except Failure Tally}
    (h : (b.step v label t n).runIn w = (r, w')) : r = .ok t.addFound.addMoved := by
  obtain ⟨w₀, r₁, w₁, hbefore, hmove, -, hcases⟩ := step_of_plans hp h
  have hd₀ := hbefore.disk
  obtain ⟨up', name', hnote⟩ := (mem_notesOn_iff ht₀).1 hn
  have hname := isName_of_mem_notesOn ht₀ hn
  have hclear := hopen.clear
  have hacc := hopen.accepted
  rw [hway.dropLast_parts] at hclear
  have hshort : ∀ name ∈ up ++ [n.name], Disk.isTooLong name = false := by
    intro name hmem
    rcases List.mem_append.1 hmem with hmem | hmem
    · exact hr.short_of_way hway name hmem
    · rw [List.mem_singleton.1 hmem]
      exact hname.short
  have haacc : (v.spot up).Accepted w.disk := by
    rw [hway.parts] at hacc
    by_cases hup : up = []
    · rw [hup]
      exact accepted_root (fun name hmem => Path.isPart_of_mem_parts (hway.parts ▸ hmem)) hacc
    · exact accepted_of_append hup hacc
  -- so the attempt to move the note ends well, and the tally counts it
  rw [← hd₀] at hroot hfile hclear hacc haacc hr
  obtain ⟨w₂, hok⟩ := runIn_move_of_open (hbefore.calm hw) hr.isTree hroot
    (hnote.isVaultRelative_path ht₀) hfile (hd₀ ▸ htakes) hway.inside hway.parts hshort hacc haacc
    (hd₀ ▸ hopen.free) hclear
  rw [hok] at hmove
  obtain ⟨rfl, -⟩ := Prod.mk.inj hmove
  rcases hcases with ⟨-, hres⟩ | ⟨e, he, -⟩
  · exact hres
  · cases he

/-- A folder on the way to the destination of a note is there after the note, if the system takes
its path and no file is above it. -/
theorem folder_of_step (hr : b.Ready v w.disk) (hw : w.Calm)
    (hroot : w.disk.get? v.place = some .folder) (hp : b.Plans (n, D)) (hway : b.Way (n, D) up)
    (hfile : w.disk.IsFile (v.placeOf n.path)) (hn : names ≠ []) (hup : names <+: up)
    (hacc : (v.spot names).Accepted w.disk) (hclear : v.IsClear w.disk names.dropLast)
    (hnone : w.disk.get? (v.place ++ names) = none) {r : Except Failure Tally}
    (h : (b.step v label t n).runIn w = (r, w')) :
    w'.disk.get? (v.place ++ names) = some .folder := by
  obtain ⟨w₀, r₁, w₁, hbefore, hmove, hafter, -⟩ := step_of_plans hp h
  have hparts : (Path.ofString (folderOf D)).parts = up := hway.parts_folderOf
  have hshort := hr.short_of_way hway
  rw [hafter.disk]
  rw [← hbefore.disk] at hr hroot hfile hacc hclear hnone
  rw [← hparts] at hshort hup
  refine folder_of_move hr.isTree hfile hmove fun {r₂ w₂} hensure => ?_
  exact folder_of_ensureFolder (isVaultRelative_folderOf hway.inside) hshort (hbefore.calm hw)
    hr.isTree hroot hup hn hacc hclear hnone hensure

theorem Outcome.folder {t' : Tally} (ho : b.Outcome v n t d t' d' moved failed) {p : Place}
    (hp : d.get? p = some .folder) : d'.get? p = some .folder := by
  cases ho with
  | passed hc => exact hp
  | left hc hv => exact hp
  | refused h hg => exact hg.get?_of_some hp
  | moved h hg hm hin hs ht => exact hm.folder (hg.get?_of_some hp)

/-! ## What holds along a batch -/

/-- What holds after the notes `done` of a batch that began on the disk `d₀`.  Notes were moved only
to destinations that were open at the beginning, and to each of these one was moved that is not
listed behind any other one that goes there.  The folders of the destinations were made. -/
structure Judged (b : Batch) (v : Vault) (d₀ : Disk) (done : List Note)
    (moved : List (Note × String)) (d : Disk) : Prop where
  isOpen : ∀ m ∈ moved, v.IsOpen d₀ m.2 ∧ v.TakesNote d₀ m.1
  settled : ∀ m ∈ b.moves done, v.IsOpen d₀ m.2 → v.TakesNote d₀ m.1 →
    ∃ m' ∈ moved, m'.2 = m.2 ∧ (m' = m ∨ [m'.1, m.1].Sublist done)
  built : ∀ names, names ≠ [] → b.Leads done names → (v.spot names).Accepted d₀ →
    v.IsClear d₀ names.dropLast → d₀.get? (v.place ++ names) = none →
    d.get? (v.place ++ names) = some .folder

theorem leads_concat_cases (h : b.Leads (done ++ [n]) names) :
    b.Leads done names ∨
      ∃ D, b.Plans (n, D) ∧ names <+: (Path.ofString (folderOf D)).parts := by
  obtain ⟨folder, hfolder, hp⟩ := h
  rcases List.mem_cons.1 hfolder with rfl | hfolder
  · exact Or.inl ⟨_, List.mem_cons_self, hp⟩
  · obtain ⟨m, hm, rfl⟩ := List.mem_map.1 hfolder
    obtain ⟨hmem, hplans⟩ := mem_moves_iff.1 hm
    rcases List.mem_append.1 hmem with hdone | hlast
    · have hm' : m ∈ b.moves done := mem_moves_iff.2 ⟨hdone, hplans⟩
      exact Or.inl ⟨_, List.mem_cons_of_mem _ (List.mem_map_of_mem hm'), hp⟩
    · obtain rfl : m.1 = n := List.mem_singleton.1 hlast
      exact Or.inr ⟨m.2, hplans, hp⟩

/-! ### One note more -/

section Step

variable (hr : b.Ready v d₀) (hl : Lists v d₀ notes) (hnotes : notes = done ++ n :: rest)
  (hP : b.Progress v notes d₀ done t moved failed w.disk)
  (hJ : b.Judged v d₀ done moved w.disk) {t' : Tally} {moved' failed' : List (Note × String)}

include hr hl hnotes hP hJ

/-- If no note was moved to the destination of the note, it is moved now. -/
theorem settled_of_step (hroot : d₀.get? v.place = some .folder) (hw : w.Calm)
    (h : (b.step v label t n).runIn w = (.ok t', w'))
    (ho : b.Outcome v n t w.disk t' d' moved' failed') (hp : b.Plans (n, D))
    (hopen : v.IsOpen d₀ D) (htakes : v.TakesNote d₀ n) :
    ∃ m' ∈ moved ++ moved', m'.2 = D ∧ (m' = (n, D) ∨ [m'.1, n].Sublist (done ++ [n])) := by
  have hmem : n ∈ notes := by simp [hnotes]
  have hn := hl.mem n hmem
  -- a note that was moved is listed before; without one the destination is still open
  by_cases hex : ∃ m' ∈ moved, m'.2 = D
  · obtain ⟨m', hm', hD⟩ := hex
    obtain ⟨hdone, -⟩ := hP.plans_of_moved hm'
    have hbefore : [m'.1, n].Sublist (done ++ [n]) :=
      (List.singleton_sublist.2 hdone).append (List.Sublist.refl [n])
    exact ⟨m', List.mem_append_left _ hm', hD, Or.inr hbefore⟩
  · obtain ⟨up, hway⟩ := hr.way hp hn
    have hopen' := isOpen_of_not_moved hr hl (hP.reached hnotes hJ.isOpen)
      (mem_moves_iff.2 ⟨hmem, hp⟩) hopen fun m' hm' hD => hex ⟨m', hm', hD⟩
    have hok := step_of_open ⟨hP.carries.isTree, hr.ne_empty, hr.inside, hr.short⟩ hw
      (hP.carries.folder hroot) hn hr.isTree hp hway (hP.isFile_next hr.isTree hl hnotes) hopen'
      (htakes.of_longestPath_eq hP.carries.longestPath_eq) h
    have ht' : t' = t.addFound.addMoved := Except.ok.inj hok
    -- a tally that counts a moved note leaves only one outcome
    cases ho with
    | passed hc =>
      rw [hp.candidate] at hc
      cases hc
    | left hc hv =>
      rw [hp.verdict] at hv
      cases hv
    | refused hp' hg => simp [Tally.addFound, Tally.addMoved, Tally.addFailed] at ht'
    | @moved D' d₁ _ hp' hg hfm hin hsource htarget =>
      have hD : D' = D := by
        have := hp.verdict
        rw [hp'.verdict] at this
        exact Verdict.move.inj this
      exact ⟨(n, D'), by simp, hD, Or.inl (by rw [hD])⟩

/-- The folders on the way to the destination of the note are made. -/
theorem built_of_step (hroot : d₀.get? v.place = some .folder) (hw : w.Calm)
    (h : (b.step v label t n).runIn w = (.ok t', w'))
    (ho : b.Outcome v n t w.disk t' w'.disk moved' failed') (hne : names ≠ [])
    (hlead : b.Leads (done ++ [n]) names) (hacc : (v.spot names).Accepted d₀)
    (hclear : v.IsClear d₀ names.dropLast) (hnone : d₀.get? (v.place ++ names) = none) :
    w'.disk.get? (v.place ++ names) = some .folder := by
  have hmem : n ∈ notes := by simp [hnotes]
  rcases leads_concat_cases hlead with hlead' | ⟨D, hp, hbefore⟩
  · exact ho.folder (hJ.built names hne hlead' hacc hclear hnone)
  · obtain ⟨up, hway⟩ := hr.way hp (hl.mem n hmem)
    rw [hway.parts_folderOf] at hbefore
    have hlead' : b.Leads notes names :=
      (leads_of_way hway (mem_moves_iff.2 ⟨hmem, hp⟩)).above hbefore
    -- a folder that the note has to lead to may have been made for an earlier one
    rcases w.disk.get?_cases (v.place ++ names) with hnone' | hfolder | hfile'
    · refine folder_of_step ⟨hP.carries.isTree, hr.ne_empty, hr.inside, hr.short⟩ hw
        (hP.carries.folder hroot) hp hway (hP.isFile_next hr.isTree hl hnotes) hne hbefore
        (hacc.of_longestPath_eq hP.carries.longestPath_eq) ?_ hnone' h
      exact (isClear_iff_of_leads hr hl (hP.reached hnotes hJ.isOpen)
        (hlead'.above (List.dropLast_prefix _))).2 hclear
    · exact ho.folder hfolder
    · exact absurd ((isFile_iff_of_leads hr hl (hP.reached hnotes hJ.isOpen) hlead').1 hfile')
        (Disk.not_isFile_of_none hnone)

/-- The next note keeps what holds along a batch. -/
theorem Judged.step (hroot : d₀.get? v.place = some .folder) (hw : w.Calm)
    (h : (b.step v label t n).runIn w = (.ok t', w'))
    (ho : b.Outcome v n t w.disk t' w'.disk moved' failed') :
    b.Judged v d₀ (done ++ [n]) (moved ++ moved') w'.disk := by
  constructor
  · intro m hm
    rcases List.mem_append.1 hm with hm | hm
    · exact hJ.isOpen m hm
    · exact isOpen_of_outcome hr hl hnotes hP hJ.isOpen ho hm
  · intro m hm hopen htakes
    rw [Progress.moves_concat, List.mem_append] at hm
    rcases hm with hm | hm
    · obtain ⟨m', hm', hD, hbefore⟩ := hJ.settled m hm hopen htakes
      exact ⟨m', List.mem_append_left _ hm', hD,
        hbefore.imp id fun hsub => hsub.trans (List.sublist_append_left done [n])⟩
    · obtain ⟨hlast, hp⟩ := mem_moves_iff.1 hm
      obtain ⟨n', D⟩ := m
      obtain rfl : n' = n := List.mem_singleton.1 hlast
      exact settled_of_step hr hl hnotes hP hJ hroot hw h ho hp hopen htakes
  · intro names hne hlead hacc hclear hnone
    exact built_of_step hr hl hnotes hP hJ hroot hw h ho hne hlead hacc hclear hnone

end Step

/-! ## A whole batch -/

/-- Before the first note only the folders on the way of the target folder were made. -/
theorem judged_start (ht : w.disk.IsTree)
    (h : (v.ensureFolder b.settings.targetFolder).runIn w = (.ok (), w')) :
    b.Judged v w.disk [] [] w'.disk := by
  have hgrows := (within_ensureFolder v _).of_runIn h ht
  refine ⟨fun m hm => (List.not_mem_nil hm).elim, fun m hm => (List.not_mem_nil hm).elim, ?_⟩
  rintro names hn ⟨folder, hfolder, hp⟩ hacc hclear hnone
  obtain rfl := List.mem_singleton.1 hfolder
  obtain ⟨-, hall⟩ := of_ensureFolder ht h
  obtain ⟨-, e, he⟩ := hall names hp hn
  rcases hgrows.get?_cases (v.place ++ names) with heq | ⟨-, hf, -⟩
  · rw [heq, hnone] at he
    cases he
  · exact hf

/-- What holds along a batch holds when it comes to its end. -/
theorem judged_of_run (hne : b.settings.targetFolder ≠ "") (ht : w.disk.IsTree)
    (hroot : w.disk.get? v.place = some .folder) (hw : w.Calm) (hl : Lists v w.disk notes)
    (h : (b.run v label notes).runIn w = (.ok t, w')) :
    b.Ready v w.disk ∧ ∃ moved failed, b.Progress v notes w.disk notes t moved failed w'.disk ∧
      b.Judged v w.disk notes moved w'.disk := by
  rw [run] at h
  obtain ⟨_, w₁, hensure, h⟩ := runIn_bind_ok h
  have hr := ready_of_ensureFolder hne ht hensure
  have hgrows := (within_ensureFolder v _).of_runIn hensure ht
  have hw₁ := (within_ensureFolder_calm v _).of_runIn hensure hw
  have hstart := judged_start ht hensure
  obtain ⟨t', w₂, hrun, h⟩ := runIn_bind_ok h
  -- the run keeps both what holds whatever fails and what holds where nothing does
  obtain ⟨t'', moved, failed, hok, hP, hJ, -⟩ := runFrom_induction
    (P := fun done t moved failed w₂ => b.Progress v notes w.disk done t moved failed w₂.disk ∧
      b.Judged v w.disk done moved w₂.disk ∧ w₂.Calm)
    (fun hnotes hP hstep => by
      obtain ⟨hP, hJ, hw₂⟩ := hP
      obtain ⟨hc', t', moved', failed', rfl, ho⟩ :=
        step_cases hP.carries.isTree (hP.isFile_next ht hl hnotes) hstep
      exact ⟨t', moved', failed', rfl, hP.step ht hl hnotes ho,
        Judged.step hr hl hnotes hP hJ hroot hw₂ hstep ho, hc' hw₂⟩)
    (List.nil_append notes).symm
    ⟨Progress.start ht (hgrows.mono fun p hp => onWays_target hp), hstart, hw₁⟩ hrun
  cases hok
  cases h
  exact ⟨hr, moved, failed, hP, hJ⟩

end Batch

end NoteArchive
