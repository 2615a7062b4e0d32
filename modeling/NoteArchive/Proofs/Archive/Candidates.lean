import NoteArchive.Archive.Run
import NoteArchive.Proofs.Vault.Agreement

/-!
# What a batch hangs on

* `agrees_step`: what is done with a file comes to the same in worlds that agree, whatever it is
  called in the messages.
* `agrees_runFrom_candidates`: files that are no candidates make no difference.
* `agrees_run`: so batches of the same candidates come to the same.
-/

namespace NoteArchive

open Act

variable {v : Vault} {b : Batch}

namespace Batch

theorem agrees_batchMove (v : Vault) (n : Note) (D : String) :
    Agrees (Batch.move v n D) (Batch.move v n D) := by
  unfold Batch.move
  exact (v.agrees_ensureFolder _).bind fun _ => (v.agrees_move n D).bind fun _ =>
    (telling_tell _).agrees (telling_tell _)

/-- What is told of a note that could not be moved makes no difference. -/
theorem agrees_carryOut (v : Vault) (label label' : String) (t : Tally) (n : Note) (D : String) :
    Agrees (carryOut v label t n D) (carryOut v label' t n D) := by
  unfold carryOut
  refine (agrees_batchMove v n D).attempt.bind fun r => ?_
  cases r with
  | ok _ => exact (telling_notify _).bind_bind (telling_notify _) fun _ _ => agrees_pure _
  | error e =>
    dsimp only
    split
    · refine (telling_tell _).bind_bind (telling_tell _) fun _ _ => ?_
      exact (telling_notify _).bind_bind (telling_notify _) fun _ _ =>
        (telling_tell _).bind_bind (telling_tell _) fun _ _ => agrees_pure _
    · exact (telling_notify _).bind_bind (telling_notify _) fun _ _ =>
        (telling_tell _).bind_bind (telling_tell _) fun _ _ => agrees_pure _

theorem agrees_leave (t : Tally) (n : Note) (reason : SkipReason) :
    Agrees (leave t n reason) (leave t n reason) := by
  unfold leave
  refine (telling_tell _).bind_bind (telling_tell _) fun _ _ => ?_
  split
  · exact (telling_notify _).bind_bind (telling_notify _) fun _ _ => agrees_pure _
  · exact agrees_pure _

/-- What is done with a candidate is the same whatever it is called. -/
theorem agrees_step (b : Batch) (v : Vault) (label label' : String) (t : Tally) (n : Note) :
    Agrees (b.step v label t n) (b.step v label' t n) := by
  unfold step
  refine (telling_tell _).bind_bind (telling_tell _) fun _ _ => ?_
  split
  · refine (telling_tell _).bind_bind (telling_tell _) fun _ _ =>
      (telling_tellAll _).bind_bind (telling_tellAll _) fun _ _ => ?_
    split
    · exact agrees_leave _ _ _
    · exact agrees_carryOut v label label' _ _ _
  · exact agrees_pure t

/-- A file that is no candidate makes no difference. -/
theorem agrees_step_bind_of_not_candidate {t : Tally} {n : Note} (label : String)
    (hc : isCandidate b.format n = false) (next : Tally → Act Tally)
    (rest : Act Tally) (h : Agrees (next t) rest) :
    Agrees (b.step v label t n >>= next) rest := by
  unfold step
  rw [hc, bind_assoc]
  exact (telling_tell _).bind_agrees fun _ => h

/-- A batch comes to what it comes to with its candidates alone. -/
theorem agrees_runFrom_candidates (label label' : String) (t : Tally) (notes : List Note) :
    Agrees (b.runFrom v label t notes) (b.runFrom v label' t (b.candidates notes)) := by
  induction notes generalizing t with
  | nil => exact agrees_pure t
  | cons n rest ih =>
    cases hc : isCandidate b.format n with
    | false =>
      have hnotes : b.candidates (n :: rest) = b.candidates rest :=
        List.filter_cons_of_neg (by simp [hc])
      rw [hnotes, runFrom]
      exact agrees_step_bind_of_not_candidate label hc _ _ (ih t)
    | true =>
      have hnotes : b.candidates (n :: rest) = n :: b.candidates rest :=
        List.filter_cons_of_pos hc
      rw [hnotes, runFrom, runFrom]
      exact (agrees_step b v label label' t n).bind ih

/-- Batches of the same candidates come to the same. -/
theorem agrees_run (v : Vault) (label label' : String) {notes notes' : List Note}
    (h : b.candidates notes = b.candidates notes') :
    Agrees (b.run v label notes) (b.run v label' notes') := by
  have hrest : Agrees (b.runFrom v label {} notes) (b.runFrom v label' {} notes') := by
    have h₁ := agrees_runFrom_candidates (b := b) (v := v) label label {} notes
    have h₂ := agrees_runFrom_candidates (b := b) (v := v) label' label {} notes'
    rw [h] at h₁
    exact h₁.trans h₂.symm
  unfold run
  exact (v.agrees_ensureFolder _).bind fun _ => hrest.bind fun _ =>
    (telling_tell _).bind_bind (telling_tell _) fun _ _ => agrees_pure _

end Batch

end NoteArchive
