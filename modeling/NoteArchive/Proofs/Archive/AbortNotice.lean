import NoteArchive.Proofs.Archive.LogFile
import NoteArchive.Proofs.Vault.Silence

/-!
# What the user is told of a run that ends without a result

* `succeeds_runFrom`: once the first note is looked at, a batch comes to its end.
* `notices_of_body`: so nothing else was told when the work of an operation fails.
* `notices_of_run`: the last message of a run without a result says that it ended, and no other
  message does.
-/

namespace NoteArchive

open Act Vault

variable {v : Vault}

/-! ## The batch -/

namespace Batch

/-- Once the first note is looked at, a batch comes to its end. -/
theorem succeeds_runFrom (b : Batch) (v : Vault) (label : String) (t : Tally)
    (notes : List Note) : Succeeds (b.runFrom v label t notes) := by
  intro w
  rcases hrun : (b.runFrom v label t notes).runIn w with ⟨r, w'⟩
  obtain ⟨handled, -, rfl⟩ := handles_runFrom hrun
  exact ⟨_, w', rfl⟩

theorem failsSilently_run (b : Batch) (v : Vault) (label : String) (notes : List Note) :
    FailsSilently (b.run v label notes) :=
  (silent_ensureFolder v _).failsSilently.bind_succeeds fun _ =>
    (succeeds_runFrom b v label {} notes).bind fun _ =>
      (succeeds_tell _).bind fun _ => succeeds_pure _

end Batch

namespace Operation

/-! ## The work -/

/-- The message about the settings of an operation that cannot be saved, if they cannot. -/
def saveNotices (v : Vault) (around : Nat) (w : World) : List String :=
  match settingsIn v around w with
  | .ok s => v.saveNotices s w
  | .error _ => []

theorem saveNotices_cases (v : Vault) (around : Nat) (w : World) :
    saveNotices v around w = [] ∨ ∃ e, saveNotices v around w = [unsavedNotice e] := by
  rw [saveNotices]
  split
  · rw [Vault.saveNotices]
    split
    · exact Or.inr ⟨_, rfl⟩
    · exact Or.inl rfl
  · exact Or.inl rfl

theorem settingsIn_of_agrees {w w' : World} (h : w.Agrees w') (v : Vault) (around : Nat) :
    settingsIn v around w' = settingsIn v around w := by
  have hagrees := v.agrees_checkRoot.bind fun _ => v.agrees_settleSettings (around + 2)
  exact (hagrees w w' h).1

theorem saveNotices_of_agrees {w w' : World} (h : w.Agrees w') (v : Vault) (around : Nat) :
    saveNotices v around w' = saveNotices v around w := by
  rw [saveNotices, saveNotices, settingsIn_of_agrees h]
  split
  · next s _ =>
    rw [Vault.saveNotices, Vault.saveNotices, (v.agrees_saveSettings s w w' h).1]
  · rfl

/-- Where the work of an operation fails, the user was told at most that the settings could not be
saved. -/
theorem notices_of_body {op : Operation} {today : Option Date} {around : Nat} {w w' : World}
    {e : Failure} (h : (op.body v today around).runIn w = (.error e, w')) :
    w'.notices = w.notices ++ saveNotices v around w := by
  rw [saveNotices]
  rcases settingsIn_cases v around w with ⟨e', w₁, hset⟩ | ⟨s, w₁, hset⟩
  · rw [hset.body] at h
    cases h
    rw [hset.settings]
    exact hset.notices.trans (List.append_nil _).symm
  · rw [hset.body] at h
    rw [hset.settings]
    obtain ⟨w₂, -, hquiet, ⟨e', hnotes, -⟩ |
      ⟨notes, w₃, w₄, w₅, hnotes, -, hquiet', hrun, -, hend⟩⟩ := of_afterSettings h
    · exact ((silent_notes v).of_runIn hnotes).trans (hquiet.trans hset.notices)
    · have hbatch := Batch.failsSilently_run _ v op.label _ _ _ _ hrun
      rw [hend, closing, List.append_nil, hbatch, hquiet', (silent_notes v).of_runIn hnotes, hquiet]
      exact hset.notices

/-! ## The run -/

theorem append_ne_append {a b : String} {c c' : Char} (ha : a.toList.head? = some c)
    (hb : b.toList.head? = some c') (hne : c ≠ c') (x y : String) : a ++ x ≠ b ++ y := by
  intro h
  have hhead := congrArg (fun s : String => s.toList.head?) h
  simp only [String.toList_append, List.head?_append, ha, hb, Option.some_or,
    Option.some.injEq] at hhead
  exact hne hhead

/-- The two messages begin with different characters. -/
theorem unsavedNotice_ne_abortNotice (op : Operation) (e e' : Failure) :
    unsavedNotice e ≠ op.abortNotice e' := by
  have hunsaved : "設定を保存できませんでした: ".toList.head? = some '設' := by decide +kernel
  have habort : "ノートの".toList.head? = some 'ノ' := by decide +kernel
  have h := append_ne_append hunsaved habort (by decide) e.message
    (op.label ++ ("中にエラーが発生しました: " ++ e'.message))
  rwa [← String.append_assoc, ← String.append_assoc] at h

theorem succeeds_settle (op : Operation) (v : Vault) (r : Except Failure Tally) :
    Succeeds (op.settle v r) := by
  intro w
  obtain ⟨w', h, -, -⟩ := runIn_settle op v r w
  exact ⟨_, w', h⟩

theorem succeeds_closeLog (setup : LogSetup) (start : Nat) :
    Succeeds (closeLog setup start) := by
  intro w
  obtain ⟨w', h, -⟩ := runIn_closeLog setup start w
  exact ⟨_, w', h⟩

/-- A run fails only where its log cannot be opened. -/
theorem run_fails_iff (op : Operation) (v : Vault) (today : Option Date) (verbose : Bool)
    (around : Nat) (w : World) :
    (op.run v today verbose around).Fails w ↔
      (openLog verbose).Fails { w with notices := [] } := by
  have hclear : clearNotices.runIn w = (.ok (), { w with notices := [] }) := rfl
  rw [run, fails_bind_of_ok hclear, fails_bind_of_ok (runIn_get _)]
  exact fails_bind_iff (fun setup => (succeeds_attempt _).bind fun r =>
    (succeeds_settle op v r).bind fun _ => (succeeds_closeLog setup _).bind fun _ =>
      succeeds_pure _) _

/-- The messages of a run without a result. -/
theorem notices_of_run {op : Operation} {today : Option Date} {verbose : Bool} {around : Nat}
    {w w' : World} (h : (op.run v today verbose around).runIn w = (.ok none, w')) :
    ∃ e, w'.notices = [op.abortNotice e] ∨
      ∃ e', w'.notices = [unsavedNotice e', op.abortNotice e] := by
  rcases run_parts h with ⟨e, -, he⟩ | ⟨setup, w₁, e | t, w₂, hopen, hbody, hr, -, hend⟩
  · cases he
  · obtain ⟨-, -, hnone⟩ := of_openLog_ok hopen
    rw [notices_of_body hbody, hnone, List.nil_append, ending] at hend
    refine ⟨e, ?_⟩
    rcases saveNotices_cases v around w₁ with hs | ⟨e', hs⟩ <;> rw [hs] at hend
    · exact Or.inl hend
    · exact Or.inr ⟨e', hend⟩
  · cases hr

end Operation

/-- A run of an operation fails exactly where there is a log file and something is in its way in the
home folder, whatever else fails from outside.  Where it ends without a result the last message to
the user says so, and no other message does. -/
theorem run_fails_only_at_log (op : Operation) (v : Vault) (today : Option Date) (verbose : Bool)
    (around : Nat) (w : World) (hhome : w.home.IsTree)
    (hpath : ∀ name ∈ w.homePath.parts, IsName name) (hclock : w.clock.now.IsReal) :
    ((∃ e, ((op.run v today verbose around).runIn w).1 = .error e) ↔
        verbose = true ∧ ¬ Operation.CanLog w (Operation.logFileName w.clock.now)) ∧
      (((op.run v today verbose around).runIn w).1 = .ok none →
        ∃ before e, ((op.run v today verbose around).runIn w).2.notices =
            before ++ [op.abortNotice e] ∧
          ∀ text ∈ before, ∀ op' e', text ≠ Operation.abortNotice op' e') := by
  constructor
  · refine (Operation.run_fails_iff op v today verbose around w).trans ?_
    refine (Operation.openLog_fails_iff (w := { w with notices := [] }) hhome hpath hclock
      verbose).trans (and_congr_right fun _ => not_congr ?_)
    exact ⟨fun h => ⟨h.way, h.free⟩, fun h => ⟨h.way, h.free⟩⟩
  · intro hnone
    obtain ⟨e, h | ⟨e', h⟩⟩ := Operation.notices_of_run (Prod.ext hnone rfl)
    · exact ⟨[], e, h, by simp⟩
    · refine ⟨[unsavedNotice e'], e, h, fun text ht op' e'' => ?_⟩
      rw [List.mem_singleton.1 ht]
      exact Operation.unsavedNotice_ne_abortNotice op' e' e''

/-- The vault is missing, and the log file can be opened: there is no result, and the user is told
so. -/
theorem run_fails_only_at_log_of_missing_vault :
    let v : Vault := ⟨⟨"/", ["v"]⟩, ["v"]⟩
    let w : World := .ofDisk .empty
    let archive : Act (Option Tally) := Operation.archive.run v (some ⟨2024, 1, 1⟩) true
    (archive.runIn w).1 = .ok none ∧ (¬ ∃ e, (archive.runIn w).1 = .error e) ∧
      ∃ before e, (archive.runIn w).2.notices = before ++ [Operation.archive.abortNotice e] ∧
        ∀ text ∈ before, ∀ op' e', text ≠ Operation.abortNotice op' e' := by
  intro v w archive
  have hnone : (archive.runIn w).1 = .ok none := eq_ok_of_toOption (by decide +kernel)
  have hlog : Operation.CanLog w (Operation.logFileName w.clock.now) := by
    refine ⟨fun q _ hfile => ?_, by decide +kernel⟩
    obtain ⟨bytes, hb⟩ := id hfile
    rw [Disk.get?_of_ne_nil (Disk.isFile_ne_nil hfile)] at hb
    cases hb
  obtain ⟨hfails, hnotices⟩ := run_fails_only_at_log .archive v (some ⟨2024, 1, 1⟩) true 0 w
    (by decide) (by decide) ⟨by decide, by decide, by decide, by decide⟩
  exact ⟨hnone, fun h => (hfails.1 h).2 hlog, hnotices hnone⟩

/-- A file is where the folder of the logs must be: the run fails, though nothing is wrong with the
vault. -/
theorem run_fails_at_file_for_log_folder :
    let v : Vault := ⟨⟨"/", ["v"]⟩, ["v"]⟩
    let w : World :=
      { World.ofDisk { entries := [(["v"], .folder), (["v", "05-03-2021.md"], .file [97])] } with
        home := { entries := [([".daily_note_mover"], .file [120])] } }
    w.disk.IsTree ∧ w.home.IsTree ∧ w.clock.now.IsReal ∧ w.Calm ∧
      ∃ e, ((Operation.archive.run v (some ⟨2024, 1, 1⟩) true).runIn w).1 = .error e := by
  intro v w
  have hfails : ((Operation.archive.run v (some ⟨2024, 1, 1⟩) true).runIn w).1.toOption = none := by
    decide +kernel
  refine ⟨by decide, by decide, ⟨by decide, by decide, by decide, by decide⟩, rfl, ?_⟩
  rcases hrun : ((Operation.archive.run v (some ⟨2024, 1, 1⟩) true).runIn w).1 with e | result
  · exact ⟨e, rfl⟩
  · rw [hrun] at hfails
    cases hfails

end NoteArchive
