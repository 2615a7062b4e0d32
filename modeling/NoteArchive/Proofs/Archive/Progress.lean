import NoteArchive.Proofs.Archive.Step

/-!
# How far a batch is

* `Batch.Progress`: what holds after some notes of a batch: which of those that have to go were
  moved and which could not, what the tally counts, and what became of the disk.
* `Progress.step`: the next note keeps this, whatever it comes to.
* `runFrom_induction`: what each note keeps holds at the end of a batch.
* `run_cases`: whatever fails from outside, a batch fails at its target folder or comes to its end.
-/

namespace NoteArchive

open Act Vault

variable {v : Vault} {d : Disk} {b : Batch}

/-- The place of a note and that of its destination. -/
def Vault.placesOf (v : Vault) (m : Note × String) : Place × Place :=
  (v.placeOf m.1.path, v.placeOf m.2)

/-! ## Places and names -/

theorem Vault.IsNote.isName_name {n : Note} {up : List String} {name : String} (ht : d.IsTree)
    (h : v.IsNote d n up name) : IsName n.name := by
  rw [h.name_eq]
  exact h.isName ht name (by simp)

theorem Vault.isName_of_mem_notesOn (ht : d.IsTree) {n : Note} (h : n ∈ v.notesOn d) :
    IsName n.name := by
  obtain ⟨up, name, hn⟩ := (mem_notesOn_iff ht).1 h
  exact hn.isName_name ht

/-- The place of a file ends with its name. -/
theorem Vault.getLast?_placeOf_path (ht : d.IsTree) {n : Note} (h : n ∈ v.notesOn d) :
    (v.placeOf n.path).getLast? = some n.name := by
  obtain ⟨up, name, hn⟩ := (mem_notesOn_iff ht).1 h
  rw [hn.placeOf_path ht, hn.name_eq, ← List.append_assoc, List.getLast?_concat]

namespace Batch

/-- The names that lead to a destination. -/
theorem Plans.parts {m : Note × String} (h : b.Plans m) (hn : Path.IsPart m.1.name) :
    ∃ date, date.IsReal ∧ b.format.readDate m.1.stem = .ok date ∧
      m.2 = destinationFor m.1 date b.settings ∧
      (Path.ofString m.2).parts =
        (Path.ofString b.settings.targetFolder).parts ++
          (b.settings.dateFolders date ++ [m.1.name]) := by
  obtain ⟨date, hd, hreal, -, -, hD⟩ := h.date
  exact ⟨date, hreal, hd, hD, by rw [hD, parts_destinationFor hn]⟩

/-- The place of a destination ends with the name of the note. -/
theorem Plans.getLast?_placeOf {m : Note × String} (h : b.Plans m)
    (hn : Path.IsPart m.1.name) (v : Vault) : (v.placeOf m.2).getLast? = some m.1.name := by
  obtain ⟨date, -, -, -, hp⟩ := h.parts hn
  rw [placeOf, hp, ← List.append_assoc, ← List.append_assoc, List.getLast?_concat]

section Names

variable {m m' : Note × String}

/-- Where one note goes and another one is, or goes too, both go to the same destination. -/
theorem destination_eq_of_getLast? (ht : d.IsTree) (h : b.Plans m) (h' : b.Plans m')
    (hm : m.1 ∈ v.notesOn d) (hm' : m'.1 ∈ v.notesOn d) {p : Place}
    (hp : p.getLast? = some m'.1.name) (heq : v.placeOf m.2 = p) : m.2 = m'.2 := by
  have hn := Path.isPart_of_isName (isName_of_mem_notesOn ht hm)
  have hlast := h.getLast?_placeOf hn v
  rw [heq, hp] at hlast
  have hname : m.1.name = m'.1.name := (Option.some.inj hlast).symm
  refine destination_unique h h' hname ?_
  rw [extension_eq_of_mem_notesOn ht hm, extension_eq_of_mem_notesOn ht hm', hname]

theorem destination_eq_of_source (ht : d.IsTree) (h : b.Plans m) (h' : b.Plans m')
    (hm : m.1 ∈ v.notesOn d) (hm' : m'.1 ∈ v.notesOn d)
    (heq : v.placeOf m.2 = v.placeOf m'.1.path) : m.2 = m'.2 :=
  destination_eq_of_getLast? ht h h' hm hm' (getLast?_placeOf_path ht hm') heq

theorem destination_eq_of_target (ht : d.IsTree) (h : b.Plans m) (h' : b.Plans m')
    (hm : m.1 ∈ v.notesOn d) (hm' : m'.1 ∈ v.notesOn d)
    (heq : v.placeOf m.2 = v.placeOf m'.2) : m.2 = m'.2 :=
  destination_eq_of_getLast? ht h h' hm hm'
    (h'.getLast?_placeOf (Path.isPart_of_isName (isName_of_mem_notesOn ht hm')) v) heq

end Names

/-! ## Progress -/

/-- The places on the way of the folders that a batch makes. -/
def OnWays (b : Batch) (v : Vault) (d : Disk) (notes : List Note) (p : Place) : Prop :=
  ∃ folder ∈ b.folders notes, v.OnWay d (Path.ofString folder).parts p

theorem onWays_target {notes : List Note} {p : Place}
    (h : v.OnWay d (Path.ofString b.settings.targetFolder).parts p) : b.OnWays v d notes p :=
  ⟨_, List.mem_cons_self, h⟩

theorem onWays_of_plans {notes : List Note} {m : Note × String} (h : b.Plans m)
    (hm : m.1 ∈ notes) {p : Place} (hp : v.OnWay d (Path.ofString (folderOf m.2)).parts p) :
    b.OnWays v d notes p :=
  ⟨_, List.mem_cons_of_mem _ (List.mem_map_of_mem (mem_moves_iff.2 ⟨hm, h⟩)), hp⟩

/-- The notes of a batch: files of the vault, each one once. -/
structure Lists (v : Vault) (d : Disk) (notes : List Note) : Prop where
  mem : ∀ n ∈ notes, n ∈ v.notesOn d
  nodup : notes.Pairwise fun n n' => n.path ≠ n'.path

theorem lists_notesOn (ht : d.IsTree) (v : Vault) : Lists v d (v.notesOn d) where
  mem _ hn := hn
  nodup := (notesOn_pairwise ht v).imp fun h => String.ne_of_lt h

/-- What holds after the notes `done` of the batch `notes`, which began on the disk `d₀`. -/
structure Progress (b : Batch) (v : Vault) (notes : List Note) (d₀ : Disk) (done : List Note)
    (t : Tally) (moved failed : List (Note × String)) (d : Disk) : Prop where
  perm : (moved ++ failed).Perm (b.moves done)
  carries : d₀.Carries (moved.map v.placesOf) (b.OnWays v d₀ notes) d
  inside : ∀ m ∈ moved, isVaultRelative m.2 = true
  found : t.found = (b.candidates done).length
  moved_eq : t.moved = moved.length
  skipped : t.skipped + (b.moves done).length = (b.candidates done).length
  failed_eq : t.failed = failed.length
  errors : t.errors.map Prod.fst = failed.map (·.1.path)

namespace Progress

variable {notes done : List Note} {d₀ : Disk} {t : Tally} {moved failed : List (Note × String)}

theorem plans_of_moved (h : b.Progress v notes d₀ done t moved failed d) {m : Note × String}
    (hm : m ∈ moved) : m.1 ∈ done ∧ b.Plans m :=
  mem_moves_iff.1 (h.perm.mem_iff.1 (List.mem_append_left _ hm))

theorem start (ht : d₀.IsTree) (hg : d₀.Grows (b.OnWays v d₀ notes) d) :
    b.Progress v notes d₀ [] {} [] [] d where
  perm := List.Perm.refl _
  carries := .of_grows ht hg
  inside := by simp
  found := rfl
  moved_eq := rfl
  skipped := rfl
  failed_eq := rfl
  errors := rfl

/-- A note that is still to come is where it was. -/
theorem isFile_next (ht : d₀.IsTree) (hl : Lists v d₀ notes) {n : Note} {rest : List Note}
    (hnotes : notes = done ++ n :: rest) (h : b.Progress v notes d₀ done t moved failed d) :
    d.IsFile (v.placeOf n.path) := by
  have hn : n ∈ v.notesOn d₀ := hl.mem n (by simp [hnotes])
  obtain ⟨bytes, hb⟩ := isFile_of_mem_notesOn ht hn
  refine ⟨bytes, h.carries.get?_of_some hb ?_⟩
  intro p hp heq
  obtain ⟨m, hm, rfl⟩ := List.mem_map.1 hp
  obtain ⟨hdone, -⟩ := h.plans_of_moved hm
  have hpath := path_eq_of_placeOf_eq ht hn (hl.mem _ (by simp [hnotes, hdone])) heq
  have hnodup := hl.nodup
  rw [hnotes, List.pairwise_append] at hnodup
  exact hnodup.2.2 m.1 hdone n List.mem_cons_self hpath.symm

/-- The destination of a note that is moved was free from the beginning: nothing that was there
went away. -/
theorem free_of_fileMoved (ht : d₀.IsTree) (hl : Lists v d₀ notes) {n : Note}
    {rest : List Note} (hnotes : notes = done ++ n :: rest)
    (h : b.Progress v notes d₀ done t moved failed d) {D : String} (hplans : b.Plans (n, D))
    (hfree : d.get? (v.placeOf D) = none) : d₀.get? (v.placeOf D) = none := by
  have hn : n ∈ v.notesOn d₀ := hl.mem n (by simp [hnotes])
  rcases he : d₀.get? (v.placeOf D) with _ | e
  · rfl
  · by_cases hs : ∃ p ∈ moved.map v.placesOf, v.placeOf D = p.1
    · -- what went away from there had the same name, and so the same destination
      obtain ⟨p, hp, heq⟩ := hs
      obtain ⟨m, hm, rfl⟩ := List.mem_map.1 hp
      obtain ⟨hdone, hplans'⟩ := h.plans_of_moved hm
      have hD : D = m.2 := destination_eq_of_source ht hplans hplans' hn
        (hl.mem _ (by simp [hnotes, hdone])) heq
      rw [hD] at hfree
      exact absurd (h.carries.isFile_target hp) (Disk.not_isFile_of_none hfree)
    · rw [h.carries.get?_of_some he fun p hp heq => hs ⟨p, hp, heq⟩] at hfree
      cases hfree

theorem candidates_concat_of_false (done : List Note) {n : Note}
    (hc : isCandidate b.format n = false) :
    b.candidates (done ++ [n]) = b.candidates done := by
  simp [candidates, hc]

theorem candidates_concat_of_true (done : List Note) {n : Note}
    (hc : isCandidate b.format n = true) :
    b.candidates (done ++ [n]) = b.candidates done ++ [n] := by
  simp [candidates, hc]

theorem moves_concat (b : Batch) (done : List Note) (n : Note) :
    b.moves (done ++ [n]) = b.moves done ++ b.moves [n] := by
  simp [moves, candidates]

theorem moves_concat_of_plans (done : List Note) {n : Note} {D : String} (hp : b.Plans (n, D)) :
    b.moves (done ++ [n]) = b.moves done ++ [(n, D)] := by
  rw [moves_concat, moves_singleton_of_plans hp]

/-! What the next note comes to, case by case. -/

section Step

variable {n : Note} {D : String} (h : b.Progress v notes d₀ done t moved failed d)

include h

theorem after_passed (hc : isCandidate b.format n = false) :
    b.Progress v notes d₀ (done ++ [n]) t moved failed d := by
  have hmoves : b.moves (done ++ [n]) = b.moves done := by
    simp [moves, candidates, hc]
  have hcandidates := candidates_concat_of_false done hc
  exact { h with
    perm := hmoves ▸ h.perm
    found := by rw [hcandidates, h.found]
    skipped := by rw [hmoves, hcandidates, h.skipped] }

theorem after_left {reason : SkipReason} (hc : isCandidate b.format n = true)
    (hv : b.verdict n = .skip reason) :
    b.Progress v notes d₀ (done ++ [n]) t.addFound.addSkipped moved failed d := by
  have hmoves : b.moves (done ++ [n]) = b.moves done := by
    simp [moves, candidates, hc, hv, Verdict.destination?]
  have hcandidates := candidates_concat_of_true done hc
  have hskipped := h.skipped
  refine { h with perm := hmoves ▸ h.perm, found := ?_, skipped := ?_ }
  · simp [hcandidates, Tally.addSkipped, Tally.addFound, h.found]
  · simp only [hmoves, hcandidates, Tally.addSkipped, Tally.addFound, List.length_append,
      List.length_singleton]
    omega

theorem after_refused (hp : b.Plans (n, D)) {d' : Disk} (hg : d.Grows (b.OnWays v d₀ notes) d')
    (message : String) :
    b.Progress v notes d₀ (done ++ [n]) (t.addFound.addFailed n.path message) moved
      (failed ++ [(n, D)]) d' := by
  have hmoves := moves_concat_of_plans done hp
  have hcandidates := candidates_concat_of_true done hp.candidate
  have hskipped := h.skipped
  refine { h with
    perm := ?_
    carries := h.carries.grows hg
    found := ?_
    skipped := ?_
    failed_eq := ?_
    errors := ?_ }
  · rw [hmoves, ← List.append_assoc]
    exact h.perm.append_right _
  · simp [hcandidates, Tally.addFailed, Tally.addFound, h.found]
  · simp only [hmoves, hcandidates, Tally.addFailed, Tally.addFound, List.length_append,
      List.length_singleton]
    omega
  · simp [Tally.addFailed, Tally.addFound, h.failed_eq]
  · simp [Tally.addFailed, Tally.addFound, h.errors]

theorem after_moved (hp : b.Plans (n, D)) {d₁ d' : Disk} (hg : d.Grows (b.OnWays v d₀ notes) d₁)
    (hm : d₁.FileMoved d' (v.placeOf n.path) (v.placeOf D)) (hin : isVaultRelative D = true)
    (hfile : d₀.IsFile (v.placeOf n.path)) (hfree : d₀.get? (v.placeOf D) = none) :
    b.Progress v notes d₀ (done ++ [n]) t.addFound.addMoved (moved ++ [(n, D)]) failed d' := by
  have hmoves := moves_concat_of_plans done hp
  have hcandidates := candidates_concat_of_true done hp.candidate
  have hskipped := h.skipped
  refine { h with
    perm := ?_
    carries := ?_
    inside := List.forall_mem_append.2 ⟨h.inside, by simpa using hin⟩
    found := ?_
    moved_eq := ?_
    skipped := ?_ }
  · rw [hmoves, List.append_assoc]
    -- the new note comes behind the failed ones in the order of the batch
    refine (List.perm_append_comm.append_left moved).trans ?_
    rw [← List.append_assoc]
    exact h.perm.append_right _
  · rw [List.map_append]
    exact (h.carries.grows hg).fileMoved hm hfile hfree
  · simp [hcandidates, Tally.addMoved, Tally.addFound, h.found]
  · simp [Tally.addMoved, Tally.addFound, h.moved_eq]
  · simp only [hmoves, hcandidates, Tally.addMoved, Tally.addFound, List.length_append,
      List.length_singleton]
    omega

end Step

/-- The next note keeps this, whatever it comes to. -/
theorem step (ht : d₀.IsTree) (hl : Lists v d₀ notes) {n : Note} {rest : List Note}
    (hnotes : notes = done ++ n :: rest) (h : b.Progress v notes d₀ done t moved failed d)
    {t' : Tally} {d' : Disk} {moved' failed' : List (Note × String)}
    (ho : b.Outcome v n t d t' d' moved' failed') :
    b.Progress v notes d₀ (done ++ [n]) t' (moved ++ moved') (failed ++ failed') d' := by
  have hmem : n ∈ notes := by simp [hnotes]
  have hways : ∀ {D : String}, b.Plans (n, D) → ∀ p,
      v.OnWay d (Path.ofString (folderOf D)).parts p → b.OnWays v d₀ notes p :=
    fun hp p hway => onWays_of_plans hp hmem (hway.of_longestPath_eq h.carries.longestPath_eq.symm)
  cases ho with
  | passed hc =>
    rw [List.append_nil, List.append_nil]
    exact h.after_passed hc
  | left hc hv =>
    rw [List.append_nil, List.append_nil]
    exact h.after_left hc hv
  | refused hp hg =>
    rw [List.append_nil]
    exact h.after_refused hp (hg.mono (hways hp)) _
  | moved hp hg hm hin hsource htarget =>
    rw [List.append_nil]
    have hfree := free_of_fileMoved ht hl hnotes h hp (hg.get?_of_none hm.free)
    have hfile := isFile_of_mem_notesOn ht (hl.mem n hmem)
    exact h.after_moved hp (hg.mono (hways hp)) hm hin hfile hfree

end Progress

/-! ## A whole batch -/

/-- What each note keeps holds at the end. -/
theorem runFrom_induction {notes : List Note} {label : String}
    {P : List Note → Tally → List (Note × String) → List (Note × String) → World → Prop}
    (hstep : ∀ {done n rest t moved failed w r w'}, notes = done ++ n :: rest →
      P done t moved failed w → (b.step v label t n).runIn w = (r, w') →
      ∃ t' moved' failed', r = .ok t' ∧
        P (done ++ [n]) t' (moved ++ moved') (failed ++ failed') w') :
    ∀ {done rest t moved failed w r w'}, notes = done ++ rest → P done t moved failed w →
      (b.runFrom v label t rest).runIn w = (r, w') →
      ∃ t' moved' failed', r = .ok t' ∧ P notes t' moved' failed' w' := by
  intro done rest
  induction rest generalizing done with
  | nil =>
    intro t moved failed w r w' hnotes hP h
    cases h
    rw [List.append_nil] at hnotes
    exact ⟨t, moved, failed, rfl, hnotes ▸ hP⟩
  | cons n rest ih =>
    intro t moved failed w r w' hnotes hP h
    rw [runFrom] at h
    rcases hrun : (b.step v label t n).runIn w with ⟨r₁, w₁⟩
    obtain ⟨t', moved', failed', rfl, hP'⟩ := hstep hnotes hP hrun
    rw [runIn_bind_of_ok hrun] at h
    exact ih (by rw [hnotes, List.append_assoc, List.singleton_append]) hP' h

/-- A batch fails at its target folder, or comes to its end. -/
theorem run_cases {notes : List Note} {label : String} {w w' : World} (ht : w.disk.IsTree)
    (hl : Lists v w.disk notes) {r : Except Failure Tally}
    (h : (b.run v label notes).runIn w = (r, w')) :
    (w.Calm → w'.Calm) ∧
      ((∃ e, (v.ensureFolder b.settings.targetFolder).runIn w = (.error e, w') ∧ r = .error e ∧
          w.disk.Grows (b.OnWays v w.disk notes) w'.disk) ∨
        ∃ t moved failed, r = .ok t ∧
          b.Progress v notes w.disk notes t moved failed w'.disk) := by
  rw [run] at h
  rcases runIn_bind_cases h with ⟨_, w₁, hensure, h⟩ | ⟨e, hensure, he⟩
  · have hg : w.disk.Grows (b.OnWays v w.disk notes) w₁.disk :=
      ((within_ensureFolder v _).of_runIn hensure ht).mono fun p hp => onWays_target hp
    have hc := (within_ensureFolder_calm v _).of_runIn hensure
    rcases hrun : (b.runFrom v label {} notes).runIn w₁ with ⟨r₁, w₂⟩
    obtain ⟨t, moved, failed, rfl, hP, hc₂⟩ := runFrom_induction
      (P := fun done t moved failed w₂ =>
        b.Progress v notes w.disk done t moved failed w₂.disk ∧ (w.Calm → w₂.Calm))
      (fun hnotes hP hstep => by
        obtain ⟨hP, hc⟩ := hP
        obtain ⟨hc', t', moved', failed', hr, ho⟩ :=
          step_cases hP.carries.isTree (hP.isFile_next ht hl hnotes) hstep
        exact ⟨t', moved', failed', hr, hP.step ht hl hnotes ho, fun hw => hc' (hc hw)⟩)
      (List.nil_append notes).symm ⟨Progress.start ht hg, hc⟩ hrun
    rw [runIn_bind_of_ok hrun] at h
    cases h
    exact ⟨hc₂, Or.inr ⟨t, moved, failed, rfl, hP⟩⟩
  · refine ⟨(within_ensureFolder_calm v _).of_runIn hensure, Or.inl ⟨e, hensure, he, ?_⟩⟩
    exact ((within_ensureFolder v _).of_runIn hensure ht).mono fun p hp => onWays_target hp

end Batch

end NoteArchive
