import NoteArchive.Proofs.Archive.Messages
import NoteArchive.Proofs.Settings.Validation
import NoteArchive.Proofs.Vault.Inside

/-!
# No operation is refused for leaving the vault

* `Settings.IsTarget`: a target folder inside the vault.  `isTarget_resolveTarget`: validation gives
  one, whatever was asked for.
* `stays_body`, `stays_run`: with such a target folder no operation fails because a path could leave
  the vault.
* `stays_of_completed`: no attempt to move one of its notes does either.
* `nothing_leaves_the_vault`: all this, and what the paths of a vault lead to.
-/

namespace NoteArchive

open Act Vault

variable {v : Vault}

/-! ## Target folders -/

/-- A target folder that has a name, does not begin or end with a slash, and is inside the vault. -/
structure Settings.IsTarget (folder : String) : Prop where
  ne_empty : folder ≠ ""
  head : folder.toList.head? ≠ some '/'
  last : folder.toList.getLast? ≠ some '/'
  inside : isVaultRelative folder = true

theorem Settings.isTarget_resolveTarget (folder : String) : IsTarget (resolveTarget folder) := by
  obtain ⟨hhead, hlast⟩ := Text.trim_eq_self_iff.1 (trim_slash_resolveTarget folder)
  refine ⟨resolveTarget_ne_empty folder, fun h => ?_, fun h => ?_,
    isVaultRelative_resolveTarget folder⟩
  · exact absurd (hhead '/' h) (by decide)
  · exact absurd (hlast '/' h) (by decide)

theorem Settings.isTarget_validated (s : Settings) : IsTarget s.validated.targetFolder := by
  rw [targetFolder_validated]
  exact isTarget_resolveTarget s.targetFolder

/-! ## Batches -/

namespace Batch

variable {b : Batch}

theorem stays_move {n : Note} {D : String} (hn : isVaultRelative n.path = true)
    (hD : isVaultRelative D = true) : StaysInside (Batch.move v n D) :=
  (stays_ensureFolder (isVaultRelative_folderOf hD)).bind fun _ =>
    (Vault.stays_move hn hD).bind fun _ => stays_tell _

/-- Once the target folder is there, a batch comes to its end. -/
theorem stays_run (h : isVaultRelative b.settings.targetFolder = true) (label : String)
    (notes : List Note) : StaysInside (b.run v label notes) :=
  (stays_ensureFolder h).bind fun _ =>
    ((succeeds_runFrom b v label {} notes).bind fun _ =>
      (succeeds_tell _).bind fun _ => succeeds_pure _).staysInside

/-- The destinations of a batch with a target folder inside the vault are inside the vault. -/
theorem Plans.inside {d : Disk} (ht : d.IsTree) {m : Note × String} (h : b.Plans m)
    (hn : m.1 ∈ v.notesOn d) (htarget : Settings.IsTarget b.settings.targetFolder) :
    isVaultRelative m.1.path = true ∧ isVaultRelative m.2 = true := by
  obtain ⟨up, name, hnote⟩ := (mem_notesOn_iff ht).1 hn
  obtain ⟨date, -, -, -, -, hD⟩ := h.date
  refine ⟨hnote.isVaultRelative_path ht, ?_⟩
  rw [hD]
  exact isVaultRelative_destinationFor (isName_of_mem_notesOn ht hn) htarget.ne_empty htarget.inside

end Batch

/-- Each attempt is to move its note in some world. -/
theorem Vault.Attempts.run_of_mem {attempts : List Attempt} {w w' : World}
    (h : v.Attempts attempts w w') {a : Attempt} (ha : a ∈ attempts) :
    ∃ w₀ w₁, (Batch.move v a.note a.destination).runIn w₀ = (a.result, w₁) := by
  induction h with
  | none _ => cases ha
  | next _ hmove _ ih =>
    rcases List.mem_cons.1 ha with rfl | ha
    · exact ⟨_, _, hmove⟩
    · exact ih ha

/-! ## Operations -/

namespace Operation

variable {op : Operation} {around : Nat} {day : Date} {w w' : World} {s : Settings}

theorem stays_checkRoot (v : Vault) : StaysInside v.checkRoot := by
  refine stays_get.bind fun w => ((v.spot []).stays_isThere _).bind fun there => ?_
  refine stays_ite (((v.spot []).stays_isFolder _).bind fun above => ?_) (stays_throw ?_)
  · refine stays_ite (stays_ite (stays_pure ()) (stays_throw ?_)) (stays_throw ?_) <;>
      · rintro ⟨path, ⟨⟩⟩
  · rintro ⟨path, ⟨⟩⟩

theorem stays_notes (v : Vault) : StaysInside v.notes := by
  refine (stays_interrupt _).bind fun _ => stays_get.bind fun w => ?_
  split
  · refine stays_throw ?_
    rintro ⟨path, ⟨⟩⟩
  · exact stays_pure _

/-- The settings file is not looked for by a path. -/
theorem not_isOutside_of_settingsOn {d : Disk} {e : Failure}
    (h : v.settingsOn d around = .error e) : ¬ e.IsOutside := by
  rw [settingsOn] at h
  rcases bind_eq_error h with h | ⟨there, -, h⟩
  · exact v.settingsFile.not_isOutside_of_isThere h
  cases there with
  | false => cases h
  | true =>
    rw [if_pos rfl] at h
    split at h
    · rw [Settings.ofBytes] at h
      split at h
      · rw [Settings.ofText] at h
        split at h
        · cases h
        · cases h
        · split at h <;> cases h
          rintro ⟨path, ⟨⟩⟩
      · cases h
        rintro ⟨path, ⟨⟩⟩
    · cases h

theorem not_isOutside_of_settingsIn {e : Failure} (h : settingsIn v around w = .error e) :
    ¬ e.IsOutside := by
  rcases runIn_bind_cases (Prod.ext h rfl) with ⟨_, w₁, -, hsettle⟩ | ⟨e', hcheck, he⟩
  · rcases of_settleSettings_eq_error hsettle with hload | ⟨cause, rfl⟩
    · exact not_isOutside_of_settingsOn hload
    · rintro ⟨path, ⟨⟩⟩
  · cases he
    exact stays_checkRoot v _ _ _ hcheck

theorem isTarget_of_settingsIn (h : settingsIn v around w = .ok s) :
    Settings.IsTarget s.targetFolder := by
  obtain ⟨-, loaded, -, rfl⟩ := loaded_of_settingsIn h
  exact Settings.isTarget_validated _

/-- The work of an operation. -/
theorem stays_body (op : Operation) (v : Vault) (today : Option Date) (around : Nat) :
    StaysInside (op.body v today around) := by
  intro w w' e h
  rcases settingsIn_cases v around w with ⟨e', w₁, hset⟩ | ⟨s, w₁, hset⟩
  · rw [hset.body] at h
    cases h
    exact not_isOutside_of_settingsIn hset.settings
  · rw [hset.body] at h
    obtain ⟨w₂, -, -, ⟨e', hnotes, he⟩ | ⟨notes, w₃, w₄, w₅, -, -, -, hrun, -⟩⟩ :=
      of_afterSettings h
    · cases he
      exact stays_notes v _ _ _ hnotes
    · have htarget := isTarget_of_settingsIn hset.settings
      have hstays := Batch.stays_run (v := v) (b := batch s (day today w₁.clock)) htarget.inside
        op.label (notes.filter op.concerns)
      exact hstays _ _ _ hrun

theorem stays_appendLog (name : String) (more : List UInt8) :
    StaysInside (appendLog name more) := by
  refine stays_get.bind fun w => ?_
  split
  · refine (stays_set _).bind fun _ => stays_throw ?_
    rintro ⟨path, ⟨⟩⟩
  · refine (stays_set _).bind fun _ => ?_
    dsimp only
    split
    · refine stays_throw ?_
      rintro ⟨path, ⟨⟩⟩
    · exact stays_set _

theorem stays_openLog (verbose : Bool) : StaysInside (openLog verbose) := by
  have hclock : Succeeds readClock := fun w => ⟨_, _, rfl⟩
  refine stays_ite (hclock.staysInside.bind fun _ => (stays_appendLog _ _).bind fun _ => ?_) ?_
  · exact (stays_tell _).bind fun _ => stays_pure _
  · exact (stays_tell _).bind fun _ => stays_pure _

theorem stays_run (op : Operation) (v : Vault) (today : Option Date) (verbose : Bool)
    (around : Nat) : StaysInside (op.run v today verbose around) := by
  intro w w' e h
  rcases run_parts h with ⟨e', hopen, he⟩ | ⟨_, _, result, _, -, -, hr, -⟩
  · cases he
    exact stays_openLog verbose _ _ _ hopen
  · cases hr

/-- The attempts of an operation with a result. -/
theorem stays_of_completed {handled : List Handling} {t : Tally} (ht : w.disk.IsTree)
    (h : op.Completed v around day w s handled t w') {a : Attempt}
    (ha : a ∈ handled.filterMap Handling.attempt?) {e : Failure} (he : a.result = .error e) :
    ¬ e.IsOutside := by
  obtain ⟨w₀, -, hattempts⟩ := h.attempts
  obtain ⟨w₁, w₂, hmove⟩ := hattempts.run_of_mem ha
  rw [he] at hmove
  -- the note is one of those listed, and its destination is that of the plan
  have hplans : (batch s day).Plans (a.note, a.destination) ∧ a.note ∈ v.notesOn w.disk := by
    have hdecision : a.decision ∈ handled.map Handling.decision := by
      obtain ⟨x, hx, hxa⟩ := List.mem_filterMap.1 ha
      cases x with
      | left note reason => cases hxa
      | tried a' =>
        cases hxa
        exact List.mem_map.2 ⟨_, hx, rfl⟩
    rw [h.decided, Batch.plan] at hdecision
    obtain ⟨n, hn, hna⟩ := List.mem_map.1 hdecision
    obtain ⟨hn, hc⟩ := List.mem_filter.1 hn
    obtain ⟨rfl, hverdict⟩ := Decision.mk.inj hna
    exact ⟨⟨hc, hverdict⟩, List.mem_of_mem_filter hn⟩
  obtain ⟨hsource, hdestination⟩ :=
    hplans.1.inside ht hplans.2 (isTarget_of_settingsIn h.settings)
  exact Batch.stays_move hsource hdestination _ _ _ hmove

end Operation

/-- Whatever target folder is asked for, validation gives one inside the vault; a path leads only to
what is below the vault; and no run of an operation fails because a path could leave the vault:
neither the run, nor the work whose failures it tells the user, nor any attempt to move a note.
This holds for any settings file, files and day, and whatever fails from outside. -/
theorem nothing_leaves_the_vault (v : Vault) :
    (∀ (d : Settings.Draft) (folder : String), d.targetFolder = .text folder →
      ∃ valid, ∃ target : String, d.validated? = some valid ∧ valid.targetFolder = .text target ∧
        Settings.IsTarget target) ∧
      (∀ path s, v.resolve path = .ok s →
        ∃ names, s = v.spot names ∧ ∀ name ∈ names, Path.IsPart name ∧ name ≠ "..") ∧
      ∀ op today verbose around, StaysInside (Operation.run op v today verbose around) ∧
        StaysInside (Operation.body op v today around) ∧
        ∀ w w' t, w.disk.IsTree →
          (Operation.run op v today verbose around).runIn w = (.ok (some t), w') →
          ∃ s handled,
            op.Completed v around (Operation.day today (Operation.clockAt verbose w.clock)) w s
              handled t w' ∧
            Settings.IsTarget s.targetFolder ∧
            ∀ a ∈ handled.filterMap Handling.attempt?, ∀ e, a.result = .error e →
              ¬ e.IsOutside := by
  refine ⟨fun d folder hd => ?_, fun path s => names_of_resolve,
    fun op today verbose around => ⟨op.stays_run v today verbose around,
      op.stays_body v today around, fun w w' t ht h => ?_⟩⟩
  · have htext : d.targetText? = some (Text.wide folder) := by rw [Settings.Draft.targetText?, hd]
    exact ⟨_, _, congrArg (Option.map _) htext,
      congrArg Json.text (Settings.Raw.resolveTarget_wide folder),
      Settings.isTarget_resolveTarget folder⟩
  · obtain ⟨s, handled, hcompleted, -⟩ := Operation.completed_of_run ht h
    exact ⟨s, handled, hcompleted, Operation.isTarget_of_settingsIn hcompleted.settings,
      fun a ha e => Operation.stays_of_completed ht hcompleted ha⟩

/-- The settings file asks for a target folder outside the vault, and a note cannot be moved. -/
theorem nothing_leaves_the_vault_of_one_note :
    let v : Vault := ⟨⟨"/", ["v"]⟩, ["v"]⟩
    let w : World := .ofDisk
      { entries := [(["v"], .folder), (["v", "05-03-2021.md"], .file [97]),
          (["v", ".daily_note_mover"], .folder),
          (["v", ".daily_note_mover", "data.json"],
            .file (Text.Utf8.encode "\x7b\"target_folder\": \"../out\"\x7d".toList))] }
      { move := [some ⟨.denied, "PermissionError", "no"⟩] }
    w.disk.IsTree ∧
      ∃ t w', (Operation.archive.run v (some ⟨2024, 1, 1⟩) false).runIn w = (.ok (some t), w') ∧
        t.failed = 1 ∧
        ∃ s handled, Operation.archive.Completed v 0 ⟨2024, 1, 1⟩ w s handled t w' ∧
          Settings.IsTarget s.targetFolder ∧
          ∀ a ∈ handled.filterMap Handling.attempt?, ∀ e, a.result = .error e →
            ¬ e.IsOutside := by
  intro v w
  have ht : w.disk.IsTree := by decide +kernel
  have hfailed : ((Operation.archive.run v (some ⟨2024, 1, 1⟩) false).runIn w).1.toOption.join.map
      (·.failed) = some 1 := by decide +kernel
  rcases hrun : (Operation.archive.run v (some ⟨2024, 1, 1⟩) false).runIn w with
    ⟨e | _ | t, w'⟩ <;> rw [hrun] at hfailed
  · cases hfailed
  · cases hfailed
  · exact ⟨ht, t, w', rfl, Option.some.inj hfailed,
      ((nothing_leaves_the_vault v).2.2 .archive (some ⟨2024, 1, 1⟩) false 0).2.2 w w' t ht hrun⟩

end NoteArchive
