import NoteArchive.Proofs.Archive.Judged
import NoteArchive.Proofs.Settings.Validation

/-!
# What a batch does where nothing fails from outside

* `Batch.Effect`: what such a batch does as a whole.  Of the notes that go to one open destination
  the first one is moved, and all others stay.
* `effect_of_judged`: this is what is known at the end of a batch.
* `effect_of_run`: a batch that comes to its end does this.
-/

namespace NoteArchive

open Act Vault

variable {v : Vault} {b : Batch} {d₀ d : Disk} {notes done : List Note} {m m' : Note × String}
  {moved failed : List (Note × String)} {t : Tally} {w w' : World} {label : String}

namespace Batch

/-! ## A whole batch -/

/-- What a batch of some files does where nothing fails from outside.  All notes that have to go
are in `moved` or in `failed`, and counted there. -/
structure Effect (b : Batch) (v : Vault) (notes : List Note) (d d' : Disk) (t : Tally)
    (moved failed : List (Note × String)) : Prop where
  split : (moved ++ failed).Perm (b.moves notes)
  counts : t.moved = moved.length ∧ t.failed = failed.length ∧
    t.errors.map Prod.fst = failed.map (·.1.path)
  /-- Notes of one name go to one place. -/
  together : ∀ m ∈ b.moves notes, ∃ s, v.resolve m.2 = .ok s ∧
    ∀ m' ∈ b.moves notes, m'.1.name = m.1.name → v.resolve m'.2 = .ok s
  /-- A note is moved when its destination is open, and no note that goes there too comes before
  it. -/
  wins : ∀ m, m ∈ moved ↔ m ∈ b.moves notes ∧ v.IsOpen d m.2 ∧
    ∀ m' ∈ b.moves notes, m'.1.name = m.1.name → m.1.path ≤ m'.1.path
  arrived : ∀ m ∈ moved, d'.get? (v.placeOf m.2) = d.get? (v.placeOf m.1.path) ∧
    d'.get? (v.placeOf m.1.path) = none
  /-- All other files stay as they are, and no other ones come. -/
  files : ∀ p, (∀ m ∈ moved, p ≠ v.placeOf m.1.path ∧ p ≠ v.placeOf m.2) →
    ∀ bytes, d'.get? p = some (.file bytes) ↔ d.get? p = some (.file bytes)
  /-- The folders that were missing on the ways of the batch are made, but not under files. -/
  folders : ∀ p, d'.get? p = some .folder ↔ d.get? p = some .folder ∨
    (d.get? p = none ∧ ∃ names, names ≠ [] ∧ p = v.place ++ names ∧ b.Leads notes names ∧
      (v.spot names).Accepted d ∧ v.IsClear d names)

theorem Progress.file_iff (hP : b.Progress v notes d₀ done t moved failed d) {p : Place}
    (hp : ∀ m ∈ moved, p ≠ v.placeOf m.1.path ∧ p ≠ v.placeOf m.2)
    (bytes : List UInt8) : d.get? p = some (.file bytes) ↔ d₀.get? p = some (.file bytes) := by
  constructor
  · intro hfile
    have hother : ∀ q ∈ moved.map v.placesOf, p ≠ q.1 ∧ p ≠ q.2 := by
      intro q hq
      obtain ⟨m, hm, rfl⟩ := List.mem_map.1 hq
      exact hp m hm
    rcases hP.carries.elsewhere p hother with heq | ⟨-, hf, -⟩
    · rwa [← heq]
    · rw [hf] at hfile
      cases hfile
  · intro hfile
    refine hP.carries.get?_of_some hfile fun q hq => ?_
    obtain ⟨m, hm, rfl⟩ := List.mem_map.1 hq
    exact (hp m hm).1

/-- Where no two notes go to one destination, a note is moved when its destination is open and the
system takes its path. -/
theorem mem_moved_iff_of_apart (hJ : b.Judged v d₀ notes moved d)
    (hR : b.Reached v notes d₀ moved d)
    (hapart : ∀ m ∈ b.moves notes, ∀ m' ∈ b.moves notes, m.2 = m'.2 → m = m')
    (m : Note × String) :
    m ∈ moved ↔ m ∈ b.moves notes ∧ v.IsOpen d₀ m.2 ∧ v.TakesNote d₀ m.1 := by
  constructor
  · exact fun hm => ⟨hR.mem m hm, hR.isOpen m hm⟩
  · rintro ⟨hm, hopen, htakes⟩
    obtain ⟨m', hm', hD, -⟩ := hJ.settled m hm hopen htakes
    rwa [← hapart m' (hR.mem m' hm') m hm hD]

section Whole

variable (hr : b.Ready v d₀) (hl : Lists v d₀ notes) (hJ : b.Judged v d₀ notes moved d)

include hr hl hJ

theorem mem_moved_iff (hR : b.Reached v notes d₀ moved d) (hlists : v.IsListable d₀)
    (hsorted : notes.Pairwise fun n n' => n.path < n'.path) (m : Note × String) :
    m ∈ moved ↔ m ∈ b.moves notes ∧ v.IsOpen d₀ m.2 ∧
      ∀ m' ∈ b.moves notes, m'.1.name = m.1.name → m.1.path ≤ m'.1.path := by
  -- a vault with an open destination has no null character in its path
  have htakes : ∀ {m m' : Note × String}, v.IsOpen d₀ m.2 → m' ∈ b.moves notes →
      v.TakesNote d₀ m'.1 := fun hopen hm' =>
    hlists.accepted hr.isTree (Vault.hasNull_text_of_accepted hopen.accepted)
      (hl.mem _ (mem_moves_iff.1 hm').1)
  have hpath : ∀ {m m' : Note × String}, m' = m ∨ [m'.1, m.1].Sublist notes →
      m'.1.path ≤ m.1.path := by
    rintro m m' (rfl | hbefore)
    · exact String.le_refl _
    · have hlt : m'.1.path < m.1.path := by simpa using hsorted.sublist hbefore
      exact String.not_lt.1 (String.lt_asymm hlt)
  constructor
  · intro hm
    obtain ⟨hopen, -⟩ := hJ.isOpen m hm
    refine ⟨hR.mem m hm, hopen, fun m' hm' hname => ?_⟩
    have hD := destination_eq_of_name hr hl (hR.mem m hm) hm' hname
    -- what was moved to this destination came no later than `m'`, and it is `m`
    obtain ⟨m₁, hm₁, hD₁, hbefore⟩ := hJ.settled m' hm' (hD ▸ hopen) (htakes hopen hm')
    rw [eq_of_moved hr hl hR hm hm₁ (hD.symm.trans hD₁.symm)]
    exact hpath hbefore
  · rintro ⟨hm, hopen, hfirst⟩
    -- something was moved to the destination, and of all notes that go there `m` comes first
    obtain ⟨m', hm', hD, hbefore⟩ := hJ.settled m hm hopen (htakes hopen hm)
    have hle' := hfirst m' (hR.mem m' hm') (name_eq_of_destination hr hl hm (hR.mem m' hm') hD)
    have hnote := hl.note_ext (mem_moves_iff.1 (hR.mem m' hm')).1 (mem_moves_iff.1 hm).1
      (String.le_antisymm (hpath hbefore) hle')
    rwa [← Prod.ext hnote hD]

theorem folder_iff (hR : b.Reached v notes d₀ moved d) (p : Place) :
    d.get? p = some .folder ↔ d₀.get? p = some .folder ∨
      (d₀.get? p = none ∧ ∃ names, names ≠ [] ∧ p = v.place ++ names ∧ b.Leads notes names ∧
        (v.spot names).Accepted d₀ ∧ v.IsClear d₀ names) := by
  constructor
  · exact folder_cases hr hl hR
  · rintro (hf | ⟨hnone, names, hne, rfl, hlead, hacc, hclear⟩)
    · exact hR.carries.folder hf
    · exact hJ.built names hne hlead hacc (hclear.above (List.dropLast_prefix _)) hnone

theorem effect_of_judged (hP : b.Progress v notes d₀ notes t moved failed d)
    (hlists : v.IsListable d₀) (hsorted : notes.Pairwise fun n n' => n.path < n'.path) :
    b.Effect v notes d₀ d t moved failed := by
  have hR := hP.reached (List.append_nil notes).symm hJ.isOpen
  exact {
    split := hP.perm
    counts := ⟨hP.moved_eq, hP.failed_eq, hP.errors⟩
    together := fun m hm => by
      obtain ⟨up, hway⟩ := hr.way_of_mem_moves hl.mem hm
      refine ⟨_, resolve_eq_ok_iff.2 ⟨hway.inside, rfl⟩, fun m' hm' hname => ?_⟩
      rw [destination_eq_of_name hr hl hm hm' hname]
      exact resolve_eq_ok_iff.2 ⟨hway.inside, rfl⟩
    wins := mem_moved_iff hr hl hJ hR hlists hsorted
    arrived := fun m hm => ⟨hP.carries.atTarget _ (List.mem_map_of_mem hm),
      get?_source_of_moved hr hl hR hm⟩
    files := fun _ hp => hP.file_iff hp
    folders := folder_iff hr hl hJ hR }

end Whole

/-! ## The run -/

/-- A batch of all files of a vault that comes to its end where nothing fails from outside does
this. -/
theorem effect_of_run (hne : b.settings.targetFolder ≠ "") (ht : w.disk.IsTree)
    (hroot : w.disk.get? v.place = some .folder) (hw : w.Calm) (hlists : v.IsListable w.disk)
    (h : (b.run v label (v.notesOn w.disk)).runIn w = (.ok t, w')) :
    ∃ moved failed, b.Effect v (v.notesOn w.disk) w.disk w'.disk t moved failed := by
  have hl := lists_notesOn ht v
  obtain ⟨hr, moved, failed, hP, hJ⟩ := judged_of_run hne ht hroot hw hl h
  exact ⟨moved, failed, effect_of_judged hr hl hJ hP hlists (notesOn_pairwise ht v)⟩

/-- Where the target folder can be made, a batch comes to its end. -/
theorem exists_run_of_ensureFolder (ht : w.disk.IsTree) (hl : Lists v w.disk notes) {w₁ : World}
    (h : (v.ensureFolder b.settings.targetFolder).runIn w = (.ok (), w₁)) (label : String) :
    ∃ t w', (b.run v label notes).runIn w = (.ok t, w') := by
  rcases hrun : (b.run v label notes).runIn w with ⟨r, w'⟩
  rcases (run_cases ht hl hrun).2 with ⟨e, he, -⟩ | ⟨t, -, -, rfl, -⟩
  · rw [h] at he
    cases he
  · exact ⟨t, w', rfl⟩

/-- Where no destination is open, all notes that have to go are counted as failed. -/
theorem Effect.counts_of_not_isOpen {d d' : Disk} (he : b.Effect v notes d d' t moved failed)
    (hclosed : ∀ m ∈ b.moves notes, ¬ v.IsOpen d m.2) :
    t.moved = 0 ∧ t.failed = (b.moves notes).length := by
  have hnone : moved = [] := by
    rw [List.eq_nil_iff_forall_not_mem]
    intro m hm
    obtain ⟨hm, hopen, -⟩ := (he.wins m).1 hm
    exact hclosed m hm hopen
  have hlength := he.split.length_eq
  obtain ⟨hmoved, hfailed, -⟩ := he.counts
  rw [hnone, List.nil_append] at hlength
  rw [hmoved, hfailed, hnone]
  exact ⟨rfl, hlength⟩

end Batch

/-- What a batch of all files of a vault does with settings that can be used, where the files can be
listed and nothing fails from outside. -/
theorem effect_of_calm_batch (v : Vault) (b : Batch) (label : String) (w w₁ w' : World)
    (s : Settings) (notes : List Note) (t : Tally) (hs : b.settings = s.validated)
    (ht : w.disk.IsTree) (hroot : w.disk.get? v.place = some .folder) (hw : w.Calm)
    (hnotes : v.notes.runIn w = (.ok notes, w₁))
    (h : (b.run v label notes).runIn w₁ = (.ok t, w')) :
    ∃ moved failed, b.Effect v notes w.disk w'.disk t moved failed := by
  have hne : b.settings.targetFolder ≠ "" := by
    rw [hs, Settings.targetFolder_validated]
    exact Settings.resolveTarget_ne_empty s.targetFolder
  rcases runIn_notes_of_calm (v := v) hw with ⟨hlists, hrun⟩ | ⟨_, -, -, hrun⟩ <;>
    rw [hnotes] at hrun <;> cases hrun
  exact Batch.effect_of_run hne ht hroot hw hlists h

theorem effect_of_calm_batch_of_one_note :
    let v : Vault := ⟨⟨"/", ["v"]⟩, ["v"]⟩
    let w : World := .ofDisk
      { entries := [(["v"], .folder), (["v", "05-03-2021.md"], .file [97])] }
    let b : Batch := ⟨.usual, DateFormat.compileResolved DateFormat.usual, ⟨2024, 1, 1⟩⟩
    b.settings = Settings.usual.validated ∧ w.disk.IsTree ∧
      w.disk.get? v.place = some .folder ∧ w.Calm ∧
      ∃ notes t w', v.notes.runIn w = (.ok notes, w) ∧
        (b.run v Batch.usualLabel notes).runIn w = (.ok t, w') ∧ t.moved = 1 ∧
        ∃ moved failed, b.Effect v notes w.disk w'.disk t moved failed := by
  intro v w b
  have hs : b.settings = Settings.usual.validated := by decide +kernel
  have ht : w.disk.IsTree := by decide
  have hlists : v.IsListable w.disk := by
    rw [IsListable]
    decide +kernel
  have hnotes := hlists.runIn_notes (w := w) rfl
  have hcount : ((b.run v Batch.usualLabel (v.notesOn w.disk)).runIn w).1.toOption.map (·.moved) =
      some 1 := by decide +kernel
  rcases hrun : (b.run v Batch.usualLabel (v.notesOn w.disk)).runIn w with ⟨e | t, w'⟩
  · rw [hrun] at hcount
    cases hcount
  · rw [hrun] at hcount
    exact ⟨hs, ht, rfl, rfl, _, t, w', hnotes, hrun, Option.some.inj hcount,
      effect_of_calm_batch v b Batch.usualLabel w w w' .usual _ t hs ht rfl rfl hnotes hrun⟩

/-- Where the path of a vault is long, a note stays though its destination is free and no file is in
the way: the system does not take the path of the destination. -/
theorem stays_below_long_path :
    let v : Vault := ⟨⟨"/", "v" :: (List.replicate 815 ["..", "v"]).flatten⟩, ["v"]⟩
    let w : World := .ofDisk
      { entries := [(["v"], .folder), (["v", "05-03-2021.md"], .file [97])] }
    let b : Batch := ⟨.usual, DateFormat.compileResolved DateFormat.usual, ⟨2024, 1, 1⟩⟩
    let n : Note := .ofPath "05-03-2021.md" "05-03-2021.md"
    let D := "Old Daily Notes/05-03-2021.md"
    b.settings = Settings.usual.validated ∧ w.disk.IsTree ∧
      w.disk.get? v.place = some .folder ∧ w.Calm ∧ v.notes.runIn w = (.ok [n], w) ∧
      isCandidate b.format n = true ∧ b.verdict n = .move D ∧
      w.disk.get? (v.placeOf D) = none ∧ v.IsClear w.disk (Path.ofString D).parts.dropLast ∧
      ∃ t w', (b.run v Batch.usualLabel [n]).runIn w = (.ok t, w') ∧
        t.moved = 0 ∧ t.failed = 1 := by
  intro v w b n D
  have hs : b.settings = Settings.usual.validated := by decide +kernel
  have ht : w.disk.IsTree := by decide
  have hnotes : v.notesOn w.disk = [n] := by decide +kernel
  have hparts : (Path.ofString D).parts = ["Old Daily Notes", "05-03-2021.md"] := by decide +kernel
  have htarget : (Path.ofString b.settings.targetFolder).parts = ["Old Daily Notes"] := by
    decide +kernel
  have hplans : b.Plans (n, D) := ⟨by decide +kernel, by decide +kernel⟩
  have hclear : v.IsClear w.disk ["Old Daily Notes"] := by
    intro names hp
    rcases List.prefix_cons_iff.1 hp with rfl | ⟨more, rfl, hmore⟩
    · exact Disk.not_isFile_of_folder rfl
    · rw [List.prefix_nil.1 hmore]
      exact Disk.not_isFile_of_none rfl
  -- the path of the vault has 4077 bytes, and the system takes 4095
  have hsize : ∀ more : List String, (v.spot more).text.utf8ByteSize =
      4077 + Path.bytesOf more := by
    intro more
    have htext := utf8ByteSize_text_spot (v := v) (List.cons_ne_nil _ _) more
    have hsum : Path.bytesOf v.path.parts = 4077 := by decide +kernel
    have hslash : v.path.mark.utf8ByteSize = 1 := rfl
    rw [hsum, hslash] at htext
    omega
  have hacc : (v.spot ["Old Daily Notes"]).Accepted w.disk := by
    constructor
    · have hnull := Path.hasNull_text_join ⟨"/", []⟩ (v.path.parts ++ ["Old Daily Notes"])
      exact hnull.trans (by decide +kernel)
    · rw [Disk.takesPath, hsize]
      decide +kernel
  have hlong : ¬ v.IsOpen w.disk D := by
    intro hopen
    have htakes := hopen.accepted.takes
    rw [hparts, Disk.takesPath, hsize] at htakes
    exact absurd htakes (by decide +kernel)
  obtain ⟨w₁, hensure⟩ : ∃ w₁, (v.ensureFolder b.settings.targetFolder).runIn w = (.ok (), w₁) := by
    refine runIn_ensureFolder_of_clear (by decide +kernel) ?_ rfl ht rfl ?_ ?_
    · rw [htarget]
      decide +kernel
    · rw [htarget]
      exact fun _ => hacc
    · rw [htarget]
      exact fun more hp _ => hclear more hp
  have hmoves : b.moves (v.notesOn w.disk) = [(n, D)] := by
    rw [hnotes]
    exact Batch.moves_singleton_of_plans hplans
  have hlists : v.IsListable w.disk := by
    have hlooks : v.lookedAt w.disk = [v.spot [], v.spot ["05-03-2021.md"]] := rfl
    intro s hs
    rw [hlooks, List.mem_pair] at hs
    rcases hs with rfl | rfl <;> rw [Disk.takesPath, hsize] <;> decide +kernel
  have hl : Batch.Lists v w.disk (v.notesOn w.disk) := Batch.lists_notesOn ht v
  obtain ⟨t, w', hrun⟩ := Batch.exists_run_of_ensureFolder ht hl hensure Batch.usualLabel
  obtain ⟨moved, failed, he⟩ := Batch.effect_of_run (by decide +kernel) ht rfl rfl hlists hrun
  have hcounts := he.counts_of_not_isOpen fun m hm => by
    rw [hmoves, List.mem_singleton] at hm
    rwa [hm]
  rw [hmoves] at hcounts
  have hlisted := hlists.runIn_notes (w := w) rfl
  rw [hnotes] at hrun hlisted
  refine ⟨hs, ht, rfl, rfl, hlisted, hplans.candidate, hplans.verdict, by decide +kernel, ?_,
    t, w', hrun, hcounts⟩
  rw [hparts]
  exact hclear

end NoteArchive
