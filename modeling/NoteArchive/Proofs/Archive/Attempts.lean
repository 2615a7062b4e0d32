import NoteArchive.Proofs.Archive.Handling

/-!
# What a tally says of the attempts of a batch

* `Batch.departures`: the decisions by which a note has to go.
* `Batch.Accounts`: a tally counts some files and the attempts that they led to.
* `Tally.foldl_count`: what became of the candidates shows in each count.
* `accounts_of_run`: so the tally at the end counts all files of the batch.
-/

namespace NoteArchive

open Act

variable {v : Vault} {b : Batch} {t : Tally} {w w' : World} {label : String}

namespace Attempt

variable (attempts : List Attempt)

/-- An attempt either ends well or has an error. -/
theorem countP_add_length_errors :
    attempts.countP isSuccess + (attempts.filterMap error?).length = attempts.length := by
  induction attempts with
  | nil => rfl
  | cons a rest ih =>
    obtain ⟨note, destination, result⟩ := a
    cases result with
    | error e =>
      have herror : error? ⟨note, destination, .error e⟩ = some (note.path, (Batch.blame e).1) :=
        rfl
      rw [List.countP_cons_of_neg (by simp [isSuccess, Except.toBool]),
        List.filterMap_cons_some herror, List.length_cons, List.length_cons]
      omega
    | ok _ =>
      rw [List.countP_cons_of_pos (by rfl), List.filterMap_cons_none (by rfl), List.length_cons]
      omega

/-- The errors are those of some of the notes, in their order. -/
theorem errors_sublist :
    ((attempts.filterMap error?).map Prod.fst).Sublist (attempts.map (·.note.path)) := by
  induction attempts with
  | nil => exact .slnil
  | cons a rest ih =>
    obtain ⟨note, destination, result⟩ := a
    cases result with
    | error e =>
      have herror : error? ⟨note, destination, .error e⟩ = some (note.path, (Batch.blame e).1) :=
        rfl
      rw [List.filterMap_cons_some herror, List.map_cons, List.map_cons]
      exact ih.cons_cons _
    | ok _ =>
      rw [List.filterMap_cons_none (by rfl), List.map_cons]
      exact ih.cons _

end Attempt

namespace Batch

/-! ## What a tally counts -/

/-- The decisions of a plan by which a note has to go. -/
def departures (b : Batch) (notes : List Note) : List Decision :=
  (b.plan notes).filter fun d => d.verdict.isMove

/-- The tally counts the files that were looked at, and the attempts that they led to: one for each
note that has to go, in their order. -/
structure Accounts (b : Batch) (done : List Note) (attempts : List Attempt) (t : Tally) :
    Prop where
  decided : attempts.map Attempt.decision = b.departures done
  found : t.found = (b.plan done).length
  skipped : t.skipped = (b.plan done).countP fun d => !d.verdict.isMove
  moved : t.moved = attempts.countP Attempt.isSuccess
  failed : t.failed = (attempts.filterMap Attempt.error?).length
  errors : t.errors = attempts.filterMap Attempt.error?

end Batch

section Counting

variable (handled : List Handling) (t : Tally)

/-- What became of the candidates shows in each count. -/
theorem Tally.foldl_count :
    (handled.foldl count t).found = t.found + handled.length ∧
      (handled.foldl count t).skipped =
        t.skipped + (handled.map Handling.decision).countP (fun d => !d.verdict.isMove) ∧
      (handled.foldl count t).moved =
        t.moved + (handled.filterMap Handling.attempt?).countP Attempt.isSuccess ∧
      (handled.foldl count t).failed =
        t.failed + ((handled.filterMap Handling.attempt?).filterMap Attempt.error?).length ∧
      (handled.foldl count t).errors =
        t.errors ++ (handled.filterMap Handling.attempt?).filterMap Attempt.error? := by
  induction handled generalizing t with
  | nil => simp
  | cons a rest ih =>
    obtain ⟨hfound, hskipped, hmoved, hfailed, herrors⟩ := ih (t.count a)
    rw [List.foldl_cons, hfound, hskipped, hmoved, hfailed, herrors, List.length_cons,
      List.map_cons]
    cases a with
    | left note reason =>
      have hattempt : Handling.attempt? (.left note reason) = none := rfl
      rw [List.filterMap_cons_none hattempt, List.countP_cons_of_pos (by rfl)]
      show t.found + 1 + _ = _ ∧ t.skipped + 1 + _ = _ ∧ _
      exact ⟨by omega, by omega, rfl, rfl, rfl⟩
    | tried a =>
      have hattempt : Handling.attempt? (.tried a) = some a := rfl
      rw [List.filterMap_cons_some hattempt, List.countP_cons_of_neg (by simp [Handling.decision,
        Attempt.decision, Verdict.isMove, Verdict.destination?])]
      obtain ⟨note, destination, e | _⟩ := a
      · rw [List.countP_cons_of_neg (by simp [Attempt.isSuccess, Except.toBool]),
          List.filterMap_cons_some (by rfl), List.length_cons]
        show t.found + 1 + _ = _ ∧ _ ∧ _ ∧ t.failed + 1 + _ = _ ∧ t.errors ++ [_] ++ _ = _
        exact ⟨by omega, rfl, rfl, by omega, by rw [List.append_assoc]; rfl⟩
      · rw [List.countP_cons_of_pos (by rfl), List.filterMap_cons_none (by rfl)]
        show t.found + 1 + _ = _ ∧ _ ∧ t.moved + 1 + _ = _ ∧ _
        exact ⟨by omega, rfl, by omega, rfl, rfl⟩

end Counting

namespace Batch

/-- The tally of a batch with a result counts all files of the batch, and the attempts that were
made after its target folder was there. -/
theorem accounts_of_run {notes : List Note}
    (h : (b.run v label notes).runIn w = (.ok t, w')) :
    ∃ w₀ attempts, (v.ensureFolder b.settings.targetFolder).runIn w = (.ok (), w₀) ∧
      v.Attempts attempts w₀ w' ∧ b.Accounts notes attempts t := by
  obtain ⟨w₀, handled, hensure, hh, rfl⟩ := handles_run h
  obtain ⟨hfound, hskipped, hmoved, hfailed, herrors⟩ := Tally.foldl_count handled {}
  refine ⟨w₀, handled.filterMap Handling.attempt?, hensure, hh.attempts, ?_, ?_, ?_, ?_, ?_, ?_⟩
  · rw [Handling.map_decision_filterMap, hh.decided, departures]
  · rw [hfound, ← hh.decided, List.length_map]
    exact Nat.zero_add _
  · rw [hskipped, hh.decided]
    exact Nat.zero_add _
  · rw [hmoved]
    exact Nat.zero_add _
  · rw [hfailed]
    exact Nat.zero_add _
  · rw [herrors]
    rfl

end Batch

/-- A batch that has a result decided each note that its plan decides, and counted it once.  It
tried to move each note that has to go, once and in the order of the plan, whatever became of the
notes before; the errors are those of the attempts that failed.  This holds for any files and
settings, and whatever fails from outside. -/
theorem tally_agrees_with_plan (v : Vault) (b : Batch) (label : String) (notes : List Note)
    (w w' : World) (t : Tally) (h : (b.run v label notes).runIn w = (.ok t, w')) :
    t.found = (b.plan notes).length ∧ t.found = t.moved + t.skipped + t.failed ∧
      t.skipped = (b.plan notes).countP (fun d => !d.verdict.isMove) ∧
      t.errors.length = t.failed ∧
      (t.errors.map Prod.fst).Sublist ((b.departures notes).map (·.note.path)) ∧
      ∃ w₀ attempts, (v.ensureFolder b.settings.targetFolder).runIn w = (.ok (), w₀) ∧
        v.Attempts attempts w₀ w' ∧ attempts.map Attempt.decision = b.departures notes ∧
        t.moved = attempts.countP Attempt.isSuccess ∧
        t.errors = attempts.filterMap Attempt.error? := by
  obtain ⟨w₀, attempts, hensure, hattempts, ha⟩ := Batch.accounts_of_run h
  have hlength : attempts.length = (b.plan notes).countP fun d => d.verdict.isMove := by
    rw [List.countP_eq_length_filter, ← Batch.departures, ← ha.decided, List.length_map]
  have hpaths : (b.departures notes).map (·.note.path) = attempts.map (·.note.path) := by
    rw [← ha.decided, List.map_map]
    rfl
  refine ⟨ha.found, ?_, ha.skipped, ?_, ?_, w₀, attempts, hensure, hattempts, ha.decided, ha.moved,
    ha.errors⟩
  · -- the plan has the notes that have to go, each with its attempt, and those that stay
    have hsplit : (b.plan notes).length = (b.plan notes).countP (fun d => d.verdict.isMove) +
        (b.plan notes).countP (fun d => !d.verdict.isMove) := by
      rw [List.length_eq_countP_add_countP fun d : Decision => d.verdict.isMove]
      simp
    have hended := Attempt.countP_add_length_errors attempts
    rw [ha.found, ha.moved, ha.skipped, ha.failed]
    omega
  · rw [ha.errors, ha.failed]
  · rw [ha.errors, hpaths]
    exact Attempt.errors_sublist attempts

/-- The first note cannot be moved, the second one can, and the third one has no date. -/
theorem tally_agrees_with_plan_of_three_notes :
    let v : Vault := ⟨⟨"/", ["v"]⟩, ["v"]⟩
    let w : World := .ofDisk
      { entries := [(["v"], .folder), (["v", "05-03-2021.md"], .file [97]),
          (["v", "06-03-2021.md"], .file [98]), (["v", "31-02-2021.md"], .file [99])] }
      { move := [some ⟨.denied, "PermissionError", "no"⟩] }
    let b : Batch := ⟨.usual, DateFormat.compileResolved DateFormat.usual, ⟨2024, 1, 1⟩⟩
    let notes := ["05-03-2021.md", "06-03-2021.md", "31-02-2021.md"].map fun s => Note.ofPath s s
    ∃ t w', (b.run v Batch.usualLabel notes).runIn w = (.ok t, w') ∧
      t.moved = 1 ∧ t.skipped = 1 ∧ t.failed = 1 ∧ t.found = t.moved + t.skipped + t.failed ∧
      ∃ w₀ attempts, v.Attempts attempts w₀ w' ∧
        attempts.map Attempt.decision = b.departures notes := by
  intro v w b notes
  have hcounts : ((b.run v Batch.usualLabel notes).runIn w).1.toOption.map
      (fun t => (t.moved, t.skipped, t.failed)) = some (1, 1, 1) := by decide +kernel
  rcases hrun : (b.run v Batch.usualLabel notes).runIn w with ⟨e | t, w'⟩
  · rw [hrun] at hcounts
    cases hcounts
  · rw [hrun] at hcounts
    obtain ⟨hmoved, hskipped, hfailed⟩ : t.moved = 1 ∧ t.skipped = 1 ∧ t.failed = 1 := by
      simpa [Except.toOption] using hcounts
    obtain ⟨-, hsum, -, -, -, w₀, attempts, -, hattempts, hdecided, -⟩ :=
      tally_agrees_with_plan v b Batch.usualLabel notes w w' t hrun
    exact ⟨t, w', rfl, hmoved, hskipped, hfailed, hsum, w₀, attempts, hattempts, hdecided⟩

end NoteArchive
