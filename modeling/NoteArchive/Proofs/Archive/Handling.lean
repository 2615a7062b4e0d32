import NoteArchive.Proofs.Archive.Candidates
import NoteArchive.Proofs.Vault.Silence

/-!
# What a batch does about its candidates

A batch tries to move each note that has to go, one after the other, and a note that cannot be moved
does not keep it from trying the next one.  Nothing is asked here of the vault, of the files or of
the settings, and failures may come from outside at any time.

* `Attempt`: a note that was to be moved, and what came of it.
* `Vault.Attempts`: attempts that follow one another between two worlds, with nothing between them.
* `Handling`: a candidate and what became of it.  `Tally.count`, `Handling.notice?`: how it is
  counted, and what the user is told of it.
* `Batch.handles_step`: a file is handled if it is a candidate, and nothing else happens.
* `Batch.handles_run`: so a batch handles each candidate of its plan once.
-/

namespace NoteArchive

open Act

variable {v : Vault} {b : Batch} {n : Note} {t : Tally} {w w₀ w₁ w' : World} {label : String}

/-! ## Attempts -/

/-- An attempt to move a note to its destination. -/
structure Attempt where
  note : Note
  destination : String
  result : Except Failure Unit

namespace Attempt

/-- The decision that is carried out. -/
def decision (a : Attempt) : Decision := ⟨a.note, .move a.destination⟩

def isSuccess (a : Attempt) : Bool := a.result.toBool

/-- The error of an attempt that failed, as a tally lists it. -/
def error? (a : Attempt) : Option (String × String) :=
  match a.result with
  | .ok _ => none
  | .error e => some (a.note.path, (Batch.blame e).1)

end Attempt

/-- Attempts that follow one another.  Between them nothing changes that a move hangs on, the disk
and the failures to come included. -/
inductive Vault.Attempts (v : Vault) : List Attempt → World → World → Prop where
  | none {w w' : World} (h : w.Agrees w') : v.Attempts [] w w'
  | next {a : Attempt} {rest : List Attempt} {w w₀ w₁ w' : World} (before : w.Agrees w₀)
      (move : (Batch.move v a.note a.destination).runIn w₀ = (a.result, w₁))
      (after : v.Attempts rest w₁ w') : v.Attempts (a :: rest) w w'

namespace Vault.Attempts

variable {attempts attempts' : List Attempt}

theorem of_agrees (h : w.Agrees w₀) (ha : v.Attempts attempts w₀ w') :
    v.Attempts attempts w w' := by
  cases ha with
  | none h' => exact .none (h.trans h')
  | next before move after => exact .next (h.trans before) move after

/-- More attempts follow. -/
theorem append (h : v.Attempts attempts w w₁) (h' : v.Attempts attempts' w₁ w') :
    v.Attempts (attempts ++ attempts') w w' := by
  induction h with
  | none hagrees => exact h'.of_agrees hagrees
  | next before move _ ih => exact .next before move (ih h')

theorem agrees_right (ha : v.Attempts attempts w w₁) (h : w₁.Agrees w') :
    v.Attempts attempts w w' := by
  rw [← List.append_nil attempts]
  exact ha.append (.none h)

end Vault.Attempts

/-! ## What became of the candidates -/

/-- A candidate and what became of it: it was left where it is, or there was an attempt to move
it. -/
inductive Handling where
  | left (note : Note) (reason : SkipReason)
  | tried (attempt : Attempt)

namespace Handling

/-- The decision that was followed. -/
def decision : Handling → Decision
  | .left note reason => ⟨note, .skip reason⟩
  | .tried a => a.decision

def attempt? : Handling → Option Attempt
  | .left _ _ => none
  | .tried a => some a

/-- What the user is told of a candidate, where `label` names what is done to the notes. -/
def notice? (label : String) : Handling → Option String
  | .left note reason =>
    if reason = .unparseable then some (note.name ++ " の日付を解析できないためスキップしました")
    else none
  | .tried ⟨note, destination, .ok _⟩ =>
    some (note.name ++ " を " ++ destination ++ " に" ++ label ++ "しました")
  | .tried ⟨note, _, .error e⟩ =>
    some (note.name ++ " の" ++ label ++ "に失敗しました: " ++ (Batch.blame e).1)

variable {handled handled' : List Handling}

/-- The attempts are those for the notes that have to go. -/
theorem map_decision_filterMap (handled : List Handling) :
    (handled.filterMap attempt?).map Attempt.decision =
      (handled.map decision).filter fun d => d.verdict.isMove := by
  induction handled with
  | nil => rfl
  | cons a rest ih =>
    cases a with
    | left note reason =>
      rw [List.filterMap_cons_none (by rfl), ih]
      exact (List.filter_cons_of_neg
        (by simp [decision, Verdict.isMove, Verdict.destination?])).symm
    | tried a =>
      rw [List.filterMap_cons_some (by rfl), List.map_cons, ih, List.map_cons]
      exact (List.filter_cons_of_pos (by rfl)).symm

end Handling

/-- One candidate more is counted by what became of it. -/
def Tally.count (t : Tally) : Handling → Tally
  | .left _ _ => t.addFound.addSkipped
  | .tried ⟨_, _, .ok _⟩ => t.addFound.addMoved
  | .tried ⟨note, _, .error e⟩ => t.addFound.addFailed note.path (Batch.blame e).1

namespace Batch

theorem silent_batchMove (v : Vault) (n : Note) (D : String) : Silent (Batch.move v n D) :=
  (v.silent_ensureFolder _).bind fun _ => (v.silent_move n D).bind fun _ => silent_tell _

/-- What a batch did about the candidates among some files, and what it told of them, between two
worlds. -/
structure Handles (b : Batch) (v : Vault) (label : String) (notes : List Note) (w : World)
    (handled : List Handling) (w' : World) : Prop where
  decided : handled.map Handling.decision = b.plan notes
  attempts : v.Attempts (handled.filterMap Handling.attempt?) w w'
  notices : w'.notices = w.notices ++ handled.filterMap (Handling.notice? label)

theorem plan_cons (b : Batch) (n : Note) (rest : List Note) :
    b.plan (n :: rest) = b.plan [n] ++ b.plan rest := by
  rw [plan, candidates, ← List.singleton_append, List.filter_append, List.map_append]
  rfl

theorem plan_singleton (hc : isCandidate b.format n = true) : b.plan [n] = [b.decision n] := by
  rw [plan, candidates, List.filter_singleton, hc]
  rfl

theorem plan_singleton_of_not_candidate (hc : isCandidate b.format n = false) :
    b.plan [n] = [] := by
  rw [plan, candidates, List.filter_singleton, hc]
  rfl

/-- A note that stays is counted, and told of if it has no date. -/
theorem of_leave (label : String) {reason : SkipReason} {r : Except Failure Tally}
    (h : (leave t n reason).runIn w = (r, w')) :
    r = .ok t.addSkipped ∧ w.Agrees w' ∧
      w'.notices = w.notices ++ [Handling.left n reason].filterMap (Handling.notice? label) := by
  rw [leave, tellProgress, runIn_tell_bind] at h
  split at h
  · next hreason =>
    have hnotice : Handling.notice? label (.left n reason) =
        some (n.name ++ " の日付を解析できないためスキップしました") := if_pos hreason
    cases h
    rw [List.filterMap_cons_some hnotice]
    exact ⟨rfl, ⟨rfl, rfl, rfl⟩, rfl⟩
  · next hreason =>
    have hnotice : Handling.notice? label (.left n reason) = none := if_neg hreason
    cases h
    rw [List.filterMap_cons_none hnotice]
    exact ⟨rfl, ⟨rfl, rfl, rfl⟩, (List.append_nil _).symm⟩

/-- What comes of an attempt to move a note is counted and told. -/
theorem of_carryOut {D : String} {r : Except Failure Tally}
    (h : (carryOut v label t.addFound n D).runIn w = (r, w')) :
    ∃ r₁ w₁, (Batch.move v n D).runIn w = (r₁, w₁) ∧ w₁.Agrees w' ∧
      r = .ok (t.count (.tried ⟨n, D, r₁⟩)) ∧
      w'.notices =
        w.notices ++ [Handling.tried ⟨n, D, r₁⟩].filterMap (Handling.notice? label) := by
  rcases hmove : (Batch.move v n D).runIn w with ⟨r₁, w₁⟩
  have hquiet := (silent_batchMove v n D).of_runIn hmove
  have hatt : (Act.attempt (Batch.move v n D)).runIn w = (.ok r₁, w₁) := by
    rw [runIn_attempt, hmove]
  rw [carryOut, runIn_bind_of_ok hatt] at h
  refine ⟨r₁, w₁, rfl, ?_⟩
  rcases r₁ with e | _
  · dsimp only at h
    cases hproblem : e.isFileProblem <;> rw [hproblem] at h <;> cases h <;>
      exact ⟨⟨rfl, rfl, rfl⟩, rfl, congrArg (· ++ _) hquiet⟩
  · cases h
    exact ⟨⟨rfl, rfl, rfl⟩, rfl, congrArg (· ++ _) hquiet⟩

/-- One file: whatever comes of it, the batch goes on. -/
theorem handles_step {r : Except Failure Tally} (h : (b.step v label t n).runIn w = (r, w')) :
    ∃ handled, b.Handles v label [n] w handled w' ∧ r = .ok (handled.foldl Tally.count t) := by
  rw [step, runIn_tell_bind] at h
  cases hc : isCandidate b.format n with
  | false =>
    rw [hc] at h
    cases h
    exact ⟨[], ⟨(plan_singleton_of_not_candidate hc).symm, .none ⟨rfl, rfl, rfl⟩,
      (List.append_nil _).symm⟩, rfl⟩
  | true =>
    rw [hc, if_pos rfl, tellProgress, runIn_tell_bind, runIn_tellAll_bind] at h
    -- what was told so far does not matter for what follows, and nothing of it was for the user
    generalize hw₀ : World.heard _ _ = w₀ at h
    have hagrees : w.Agrees w₀ := by
      rw [← hw₀]
      exact ⟨rfl, rfl, rfl⟩
    have hquiet : w₀.notices = w.notices := by
      rw [← hw₀]
      rfl
    have hplan := plan_singleton hc
    rw [decision] at hplan
    cases hv : b.verdict n with
    | skip reason =>
      rw [hv] at h hplan
      obtain ⟨rfl, hlater, hnotices⟩ := of_leave label h
      rw [hquiet] at hnotices
      exact ⟨[.left n reason], ⟨hplan.symm, .none (hagrees.trans hlater), hnotices⟩, rfl⟩
    | move D =>
      rw [hv] at h hplan
      obtain ⟨r₁, w₁, hmove, hlater, rfl, hnotices⟩ := of_carryOut h
      rw [hquiet] at hnotices
      exact ⟨[.tried ⟨n, D, r₁⟩],
        ⟨hplan.symm, .next hagrees hmove (.none hlater), hnotices⟩, rfl⟩

/-- So it is with all files. -/
theorem handles_runFrom {notes : List Note} {r : Except Failure Tally}
    (h : (b.runFrom v label t notes).runIn w = (r, w')) :
    ∃ handled, b.Handles v label notes w handled w' ∧ r = .ok (handled.foldl Tally.count t) := by
  induction notes generalizing t w with
  | nil =>
    cases h
    exact ⟨[], ⟨rfl, .none (.refl _), (List.append_nil _).symm⟩, rfl⟩
  | cons n rest ih =>
    rw [runFrom] at h
    rcases hstep : (b.step v label t n).runIn w with ⟨r₁, w₁⟩
    obtain ⟨first, hfirst, rfl⟩ := handles_step hstep
    rw [runIn_bind_of_ok hstep] at h
    obtain ⟨later, hlater, rfl⟩ := ih h
    refine ⟨first ++ later, ⟨?_, ?_, ?_⟩, congrArg Except.ok (List.foldl_append).symm⟩
    · rw [List.map_append, hfirst.decided, hlater.decided, ← plan_cons]
    · rw [List.filterMap_append]
      exact hfirst.attempts.append hlater.attempts
    · rw [List.filterMap_append, hlater.notices, hfirst.notices, List.append_assoc]

/-- A batch with a result handled all its candidates after its target folder was there. -/
theorem handles_run {notes : List Note} (h : (b.run v label notes).runIn w = (.ok t, w')) :
    ∃ w₀ handled, (v.ensureFolder b.settings.targetFolder).runIn w = (.ok (), w₀) ∧
      b.Handles v label notes w₀ handled w' ∧ t = handled.foldl Tally.count {} := by
  rw [run] at h
  obtain ⟨_, w₀, hensure, h⟩ := runIn_bind_ok h
  obtain ⟨t₁, w₁, hrun, h⟩ := runIn_bind_ok h
  obtain ⟨handled, hh, hok⟩ := handles_runFrom hrun
  cases hok
  cases h
  -- at the end it is only told what the tally is
  exact ⟨w₀, handled, hensure,
    ⟨hh.decided, hh.attempts.agrees_right ⟨rfl, rfl, rfl⟩, hh.notices⟩, rfl⟩

end Batch

end NoteArchive
