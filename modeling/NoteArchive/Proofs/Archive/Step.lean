import NoteArchive.Proofs.Archive.Destinations
import NoteArchive.Proofs.Archive.Handling
import NoteArchive.Proofs.Vault.Move

/-!
# One note of a batch

* `Batch.Outcome`: what one note can come to: it is no candidate, it stays, it cannot be moved, or
  it is moved.  Each case says what becomes of the tally and of the disk.
* `step_of_plans`, `step_of_not_plans`: a note is handled by what the batch decides about it.
* `step_cases`: whatever fails from outside, a step comes to one of these.
-/

namespace NoteArchive.Batch

open Act Vault

variable {b : Batch} {v : Vault}

/-- What becomes of the tally and of the disk when a note is looked at, with the note in the first
list if it is moved, and in the second one if it has to go but cannot. -/
inductive Outcome (b : Batch) (v : Vault) (n : Note) (t : Tally) (d : Disk) :
    Tally → Disk → List (Note × String) → List (Note × String) → Prop where
  | passed (hc : isCandidate b.format n = false) : Outcome b v n t d t d [] []
  | left {reason : SkipReason} (hc : isCandidate b.format n = true)
      (hv : b.verdict n = .skip reason) : Outcome b v n t d t.addFound.addSkipped d [] []
  | refused {D : String} {d' : Disk} {message : String} (h : b.Plans (n, D))
      (hg : d.Grows (v.OnWay d (Path.ofString (folderOf D)).parts) d') :
      Outcome b v n t d (t.addFound.addFailed n.path message) d' [] [(n, D)]
  | moved {D : String} {d₁ d' : Disk} (h : b.Plans (n, D))
      (hg : d.Grows (v.OnWay d (Path.ofString (folderOf D)).parts) d₁)
      (hm : d₁.FileMoved d' (v.placeOf n.path) (v.placeOf D)) (hin : isVaultRelative D = true)
      (hsource : (v.spot (Path.ofString n.path).parts).Accepted d)
      (htarget : (v.spot (Path.ofString D).parts).Accepted d) :
      Outcome b v n t d t.addFound.addMoved d' [(n, D)] []

/-- Folders are made, and then the file is moved or something is refused. -/
theorem runIn_move_cases {n : Note} {D : String} {w w' : World} (ht : w.disk.IsTree)
    (hfile : w.disk.IsFile (v.placeOf n.path)) {r : Except Failure Unit}
    (h : (Batch.move v n D).runIn w = (r, w')) :
    (w.Calm → w'.Calm) ∧
      ((r = .ok () ∧ ∃ d₁,
          w.disk.Grows (v.OnWay w.disk (Path.ofString (folderOf D)).parts) d₁ ∧
          d₁.FileMoved w'.disk (v.placeOf n.path) (v.placeOf D) ∧ isVaultRelative D = true ∧
          (v.spot (Path.ofString n.path).parts).Accepted w.disk ∧
          (v.spot (Path.ofString D).parts).Accepted w.disk) ∨
        ((∃ e, r = .error e) ∧
          w.disk.Grows (v.OnWay w.disk (Path.ofString (folderOf D)).parts) w'.disk)) := by
  rw [Batch.move] at h
  rcases runIn_bind_cases h with ⟨_, w₁, hensure, h⟩ | ⟨e, hensure, he⟩
  · -- the folders come first: a move that fails leaves them behind
    have hg := (within_ensureFolder v _).of_runIn hensure ht
    have hc := (within_ensureFolder_calm v _).of_runIn hensure
    rcases runIn_bind_cases h with ⟨_, w₂, hmove, h⟩ | ⟨e, hmove, he⟩
    · have hc₂ := (Vault.runIn_move_cases hmove).1
      obtain ⟨hm, hin, hs, hd⟩ := fileMoved_of_move (hg.isTree ht) (hg.isFile_iff.2 hfile) hmove
      cases h
      exact ⟨fun hw => hc₂ (hc hw), Or.inl ⟨rfl, w₁.disk, hg, hm, hin,
        hs.of_longestPath_eq hg.longestPath_eq.symm, hd.of_longestPath_eq hg.longestPath_eq.symm⟩⟩
    · obtain ⟨hc₂, hcases⟩ := Vault.runIn_move_cases hmove
      rcases hcases with ⟨_, _, _, hok, -⟩ | ⟨-, hd⟩
      · cases hok
      · exact ⟨fun hw => hc₂ (hc hw), Or.inr ⟨⟨e, he⟩, hd ▸ hg⟩⟩
  · exact ⟨(within_ensureFolder_calm v _).of_runIn hensure,
      Or.inr ⟨⟨e, he⟩, (within_ensureFolder v _).of_runIn hensure ht⟩⟩

/-- A note that has to go is attempted to be moved, and counted by what comes of it. -/
theorem step_of_plans {label : String} {t : Tally} {n : Note} {D : String} {w w' : World}
    (hp : b.Plans (n, D)) {r : Except Failure Tally}
    (h : (b.step v label t n).runIn w = (r, w')) :
    ∃ w₀ r₁ w₁, w.Agrees w₀ ∧ (Batch.move v n D).runIn w₀ = (r₁, w₁) ∧ w₁.Agrees w' ∧
      ((r₁ = .ok () ∧ r = .ok t.addFound.addMoved) ∨
        ∃ e, r₁ = .error e ∧ r = .ok (t.addFound.addFailed n.path (blame e).1)) := by
  obtain ⟨handled, hh, rfl⟩ := handles_step h
  have hdecided : handled.map Handling.decision = [⟨n, .move D⟩] := by
    rw [hh.decided, plan_singleton hp.candidate, decision, hp.verdict]
  obtain ⟨a, rfl, hdecision⟩ := List.map_eq_singleton_iff.1 hdecided
  cases a with
  | left note reason => cases congrArg Decision.verdict hdecision
  | tried a =>
    obtain ⟨note, destination, r₁⟩ := a
    cases hdecision
    cases hh.attempts with
    | next before move after =>
      cases after with
      | none hafter =>
        refine ⟨_, r₁, _, before, move, hafter, ?_⟩
        rcases r₁ with e | _
        · exact Or.inr ⟨e, rfl, rfl⟩
        · exact Or.inl ⟨rfl, rfl⟩

/-- Other notes change nothing but the tally. -/
theorem step_of_not_plans {label : String} {t : Tally} {n : Note} {w w' : World}
    (hp : ∀ D, ¬ b.Plans (n, D)) {r : Except Failure Tally}
    (h : (b.step v label t n).runIn w = (r, w')) :
    w.Agrees w' ∧ ∃ t', r = .ok t' ∧ b.Outcome v n t w.disk t' w.disk [] [] := by
  obtain ⟨handled, hh, rfl⟩ := handles_step h
  cases hc : isCandidate b.format n with
  | false =>
    have hnone : handled = [] :=
      List.map_eq_nil_iff.1 (hh.decided.trans (plan_singleton_of_not_candidate hc))
    subst hnone
    cases hh.attempts with
    | none hagrees => exact ⟨hagrees, t, rfl, .passed hc⟩
  | true =>
    obtain ⟨a, rfl, hdecision⟩ :=
      List.map_eq_singleton_iff.1 (hh.decided.trans (plan_singleton hc))
    cases a with
    | left note reason =>
      have hverdict : b.verdict n = .skip reason := (congrArg Decision.verdict hdecision).symm
      cases hh.attempts with
      | none hagrees => exact ⟨hagrees, _, rfl, .left hc hverdict⟩
    | tried a => exact absurd ⟨hc, (congrArg Decision.verdict hdecision).symm⟩ (hp a.destination)

/-- Whatever fails from outside, a note comes to one of its outcomes, and the batch goes on. -/
theorem step_cases {label : String} {t : Tally} {n : Note} {w w' : World} (ht : w.disk.IsTree)
    (hfile : w.disk.IsFile (v.placeOf n.path)) {r : Except Failure Tally}
    (h : (b.step v label t n).runIn w = (r, w')) :
    (w.Calm → w'.Calm) ∧ ∃ t' moved failed, r = .ok t' ∧
      b.Outcome v n t w.disk t' w'.disk moved failed := by
  by_cases hp : ∃ D, b.Plans (n, D)
  · obtain ⟨D, hp⟩ := hp
    obtain ⟨w₀, r₁, w₁, hbefore, hmove, hafter, hcases⟩ := step_of_plans hp h
    rw [← hbefore.disk] at ht hfile ⊢
    obtain ⟨hcalm₁, hcases₁⟩ := runIn_move_cases ht hfile hmove
    refine ⟨fun hw => hafter.calm (hcalm₁ (hbefore.calm hw)), ?_⟩
    have hd := hafter.disk
    -- the result of the attempt decides both the tally and what the disk came to
    rcases hcases with ⟨hok, rfl⟩ | ⟨e, he, rfl⟩
    · rcases hcases₁ with ⟨-, d₁, hg, hm, hin, hs, hg'⟩ | ⟨⟨e, he⟩, -⟩
      · exact ⟨_, [(n, D)], [], rfl, .moved hp hg (hd ▸ hm) hin hs hg'⟩
      · rw [hok] at he
        cases he
    · rcases hcases₁ with ⟨hok, -⟩ | ⟨-, hg⟩
      · rw [hok] at he
        cases he
      · exact ⟨_, [], [(n, D)], rfl, .refused hp (hd ▸ hg)⟩
  · obtain ⟨hagrees, t', hr, ho⟩ := step_of_not_plans (fun D hD => hp ⟨D, hD⟩) h
    exact ⟨hagrees.calm, t', [], [], hr, hagrees.disk ▸ ho⟩

end NoteArchive.Batch
