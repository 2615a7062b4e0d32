import NoteArchive.Proofs.Archive.Messages
import NoteArchive.Proofs.Archive.Relocation

/-!
# The log file makes no difference

With a log file the clock is read once more, and more is shown.  What is done to the vault and what
the user is told do not hang on it.

* `Vault.Attempts.unique`: from worlds that agree, the same decisions lead to the same attempts.
* `Completed.unique`: so what was done about the candidates, and what is told of them, does not hang
  on the log.
* `verbosity_makes_no_difference`: a run with a log file and one without come to the same.
-/

namespace NoteArchive

open Act Vault

variable {v : Vault}

/-- An attempt is what was decided with what came of it. -/
theorem Attempt.eq_of_decision {a a' : Attempt} (h : a.decision = a'.decision)
    (hresult : a.result = a'.result) : a = a' := by
  obtain ⟨note, destination, result⟩ := a
  obtain ⟨note', destination', result'⟩ := a'
  obtain ⟨hnote, hverdict⟩ := Decision.mk.inj h
  rw [Attempt.mk.injEq]
  exact ⟨hnote, Verdict.move.inj hverdict, hresult⟩

/-- From worlds that agree, the same decisions lead to the same attempts. -/
theorem Vault.Attempts.unique {attempts attempts' : List Attempt} {w w' w₁ w₁' : World}
    (ha : w.Agrees w') (h : v.Attempts attempts w w₁) (h' : v.Attempts attempts' w' w₁')
    (hsame : attempts.map Attempt.decision = attempts'.map Attempt.decision) :
    attempts = attempts' := by
  induction h generalizing attempts' w' with
  | none _ =>
    rw [List.map_nil, eq_comm, List.map_eq_nil_iff] at hsame
    exact hsame.symm
  | @next a rest _ _ _ _ before move _ ih =>
    cases h' with
    | none _ => cases hsame
    | @next a' rest' _ w₂ w₃ _ before' move' after' =>
      rw [List.map_cons, List.map_cons, List.cons.injEq] at hsame
      obtain ⟨hdecision, hrest⟩ := hsame
      have hnote : a.note = a'.note := congrArg Decision.note hdecision
      have hdestination : a.destination = a'.destination :=
        Verdict.move.inj (congrArg Decision.verdict hdecision)
      -- the move is the same, so it comes to the same and leaves worlds that agree
      rw [hnote, hdestination] at move
      obtain ⟨w₄, hmove, ha₄⟩ := (Batch.agrees_batchMove v a'.note a'.destination).of_runIn
        (before.symm.trans (ha.trans before')) move
      obtain ⟨hresult, rfl⟩ := Prod.mk.inj (hmove.symm.trans move')
      rw [Attempt.eq_of_decision hdecision hresult, ih ha₄ after' hrest]

/-- The decisions and the attempts say what became of the candidates. -/
theorem Handling.eq_of_decisions {handled handled' : List Handling}
    (hdecisions : handled.map decision = handled'.map decision)
    (hattempts : handled.filterMap attempt? = handled'.filterMap attempt?) :
    handled = handled' := by
  induction handled generalizing handled' with
  | nil =>
    rw [List.map_nil, eq_comm, List.map_eq_nil_iff] at hdecisions
    exact hdecisions.symm
  | cons a rest ih =>
    cases handled' with
    | nil => cases hdecisions
    | cons a' rest' =>
      rw [List.map_cons, List.map_cons, List.cons.injEq] at hdecisions
      obtain ⟨hdecision, hrest⟩ := hdecisions
      -- a note that stays and an attempt come from different decisions
      cases a with
      | left note reason =>
        cases a' with
        | left note' reason' =>
          cases hdecision
          rw [ih hrest hattempts]
        | tried attempt' => cases congrArg Decision.verdict hdecision
      | tried attempt =>
        cases a' with
        | left note' reason' => cases congrArg Decision.verdict hdecision
        | tried attempt' =>
          obtain ⟨rfl, hlater⟩ := List.cons.inj hattempts
          rw [ih hrest hlater]

namespace Operation

variable {op : Operation} {around : Nat} {day : Date} {w w₁ w₁' : World} {s s' : Settings}
  {t t' : Tally} {handled handled' : List Handling}

/-- What an operation did about the candidates hangs on the day and on where it began alone. -/
theorem Completed.unique (h : op.Completed v around day w s handled t w₁)
    (h' : op.Completed v around day w s' handled' t' w₁') :
    s = s' ∧ handled = handled' ∧ t = t' := by
  obtain rfl : s = s' := Except.ok.inj (h.settings.symm.trans h'.settings)
  obtain ⟨w₂, hensure, hattempts⟩ := h.attempts
  obtain ⟨w₂', hensure', hattempts'⟩ := h'.attempts
  obtain rfl : w₂ = w₂' := congrArg Prod.snd (hensure.symm.trans hensure')
  have hdecisions := h.decided.trans h'.decided.symm
  have hsame := hattempts.unique (.refl w₂) hattempts' (by
    rw [Handling.map_decision_filterMap, Handling.map_decision_filterMap, hdecisions])
  obtain rfl := Handling.eq_of_decisions hdecisions hsame
  exact ⟨rfl, rfl, h.counted.trans h'.counted.symm⟩

theorem fst_appendLog (name : String) (more : List UInt8) (w : World) (notices : List String) :
    ((appendLog name more).runIn { w with notices }).1 = ((appendLog name more).runIn w).1 := by
  rw [appendLog, runIn_get_bind, runIn_get_bind]
  have hplace : logPlace { w with notices } = logPlace w := rfl
  rw [hplace]
  dsimp only
  rcases w.home.makeFolders (logPlace w []) with refusal | home
  · rfl
  · dsimp only
    rw [runIn_set_bind, runIn_set_bind]
    split <;> rfl

/-- Whether the log can be opened does not hang on the messages. -/
theorem openLog_fails_iff_of_notices (verbose : Bool) (w : World) (notices : List String) :
    (openLog verbose).Fails { w with notices } ↔ (openLog verbose).Fails w := by
  rw [openLog]
  cases verbose with
  | false => exact iff_of_false ((succeeds_pure _).not_fails _) ((succeeds_pure _).not_fails _)
  | true =>
    have hread : ∀ w : World, readClock.runIn w =
        (.ok w.clock.now, { w with clock := w.clock.advance }) := fun _ => rfl
    rw [if_pos rfl, fails_bind_of_ok (hread _), fails_bind_of_ok (hread _)]
    refine ((fails_bind_iff (fun _ => (succeeds_tell _).bind fun _ => succeeds_pure _) _).trans
      ?_).trans (fails_bind_iff (fun _ => (succeeds_tell _).bind fun _ => succeeds_pure _) _).symm
    unfold Fails
    rw [← fst_appendLog _ _ { w with clock := w.clock.advance } notices]

end Operation

/-- A run on a given day with a log file, where the file can be opened, and one without it come to
the same: they have the same result, leave the same disk and the same messages, whatever the vault,
the settings file and the home folder hold, and whatever fails from outside. -/
theorem verbosity_makes_no_difference (op : Operation) (v : Vault) (today : Date) (around : Nat)
    (w : World) (ht : w.disk.IsTree) (hlog : ¬ (Operation.openLog true).Fails w) :
    let verbose := (op.run v (some today) true around).runIn w
    let quiet := (op.run v (some today) false around).runIn w
    (∃ result, verbose.1 = .ok result ∧ quiet.1 = .ok result) ∧
      verbose.2.disk = quiet.2.disk ∧ verbose.2.notices = quiet.2.notices := by
  intro verbose quiet
  have hopen : ¬ (Operation.openLog true).Fails { w with notices := [] } :=
    fun h => hlog ((Operation.openLog_fails_iff_of_notices true w []).1 h)
  have hopen' : ¬ (Operation.openLog false).Fails { w with notices := [] } := by
    rintro ⟨e, he⟩
    cases he
  rcases hverbose : verbose with ⟨r, w₁⟩
  rcases hquiet : quiet with ⟨r', w₁'⟩
  obtain ⟨result, w₂, hwork, rfl, ha⟩ := Operation.of_run_of_log ht hopen hverbose
  obtain ⟨result', w₂', hwork', rfl, ha'⟩ := Operation.of_run_of_log ht hopen' hquiet
  -- on a given day the work is the same
  obtain ⟨rfl, rfl⟩ := Prod.mk.inj (hwork.symm.trans hwork')
  refine ⟨⟨_, rfl, rfl⟩, ha.disk.trans ha'.disk.symm, ?_⟩
  rcases result with e | t
  · obtain ⟨e₁, w₃, hfail, -, hnotices⟩ := Operation.aborted_of_run ht hverbose
    obtain ⟨e₂, w₄, hfail', -, hnotices'⟩ := Operation.aborted_of_run ht hquiet
    obtain ⟨he, -⟩ := Prod.mk.inj (hfail.symm.trans hfail')
    rw [hnotices, hnotices', Except.error.inj he]
  · obtain ⟨s, handled, hcompleted, hnotices⟩ := Operation.completed_of_run ht hverbose
    obtain ⟨s', handled', hcompleted', hnotices'⟩ := Operation.completed_of_run ht hquiet
    obtain ⟨rfl, rfl, -⟩ := hcompleted.unique hcompleted'
    rw [hnotices, hnotices']

/-- A note that the system does not let go, and an empty home folder: only one of the two runs
leaves a log file there. -/
theorem verbosity_makes_no_difference_of_one_note :
    let v : Vault := ⟨⟨"/", ["v"]⟩, ["v"]⟩
    let w : World := .ofDisk
      { entries := [(["v"], .folder), (["v", "05-03-2021.md"], .file [97])] }
      { systemMove := [some ⟨.denied, "PermissionError", "no"⟩] }
    let archive := Operation.archive.run v (some ⟨2024, 1, 1⟩)
    w.disk.IsTree ∧ ¬ (Operation.openLog true).Fails w ∧
      ∃ result w₁ w₂, (archive true).runIn w = (.ok result, w₁) ∧
        (archive false).runIn w = (.ok result, w₂) ∧ w₁.home.entries.isEmpty = false ∧
        w₂.home.entries.isEmpty = true ∧ w₁.disk = w₂.disk ∧ w₁.notices = w₂.notices := by
  intro v w archive
  have ht : w.disk.IsTree := by decide
  have hopen : ((Operation.openLog true).runIn w).1.toOption.isSome = true := by decide +kernel
  have hlog : ¬ (Operation.openLog true).Fails w := by
    rintro ⟨e, he⟩
    rw [he] at hopen
    cases hopen
  have hhome : ((archive true).runIn w).2.home.entries.isEmpty = false := by decide +kernel
  have hhome' : ((archive false).runIn w).2.home.entries.isEmpty = true := by decide +kernel
  have hsame := verbosity_makes_no_difference .archive v ⟨2024, 1, 1⟩ 0 w ht hlog
  rcases hverbose : (archive true).runIn w with ⟨r, w₁⟩
  rcases hquiet : (archive false).runIn w with ⟨r', w₂⟩
  rw [hverbose] at hhome hsame
  rw [hquiet] at hhome' hsame
  obtain ⟨⟨result, rfl, rfl⟩, hdisk, hnotices⟩ := hsame
  exact ⟨ht, hlog, result, w₁, w₂, rfl, rfl, hhome, hhome', hdisk, hnotices⟩

end NoteArchive
