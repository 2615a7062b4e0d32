import NoteArchive.Proofs.Settings.Encoding
import NoteArchive.Proofs.Settings.Validation
import NoteArchive.Proofs.Vault.Agreement
import NoteArchive.Proofs.Vault.Folders
import NoteArchive.Proofs.World.Notices

/-!
# What the operations on a vault tell the user

* `silent_ensureFolder`, `silent_move`, `silent_notes` and their like: what is done to the folders
  and the files of a vault tells the user nothing.
* `Vault.saveNotices`: the message about settings that the system refuses to save.
* `settleSettings_cases`: the work on the settings, step by step.
* `notices_of_settleSettings`: it tells this message, and nothing else.
-/

namespace NoteArchive.Vault

open Act

variable {v : Vault}

theorem silent_isThere (v : Vault) (path : String) : Silent (v.isThere path) := by
  intro w
  rw [runIn_isThere]

theorem silent_makeFolder (v : Vault) (path : String) : Silent (v.makeFolder path) := by
  refine (silent_interrupt _).bind fun _ => (silent_ofExcept _).bind fun s => ?_
  refine silent_ite (fun _ => rfl) (silent_get_bind fun w => ?_)
  split <;> rfl

theorem silent_ensureSteps (v : Vault) (steps : List String) : Silent (v.ensureSteps steps) := by
  induction steps with
  | nil => exact silent_pure ()
  | cons step rest ih =>
    refine (silent_isThere v step).bind fun there => silent_ite ih ?_
    exact (silent_makeFolder v step).bind fun _ => (silent_tell _).bind fun _ => ih

theorem silent_ensureFolder (v : Vault) (folder : String) : Silent (v.ensureFolder folder) :=
  silent_ensureSteps v _

theorem silent_systemMove (source target : Spot) : Silent (systemMove source target) := by
  refine (silent_takeTurn _).bind fun turn => ?_
  cases turn with
  | some i =>
    dsimp only
    split <;> exact silent_throw _
  | none =>
    refine silent_ite (fun _ => rfl) (silent_get_bind fun w => ?_)
    split <;> rfl

theorem silent_move (v : Vault) (note : Note) (target : String) : Silent (v.move note target) := by
  refine (silent_interrupt _).bind fun _ => (silent_ofExcept _).bind fun source =>
    (silent_ofExcept _).bind fun goal => silent_get.bind fun w => ?_
  refine (silent_ofExcept _).bind fun there => silent_ite ?_ (fun _ => rfl)
  refine (silent_ofExcept _).bind fun taken => silent_ite (fun _ => rfl) ?_
  refine (silent_ofExcept _).bind fun folder => silent_ite ?_ (fun _ => rfl)
  exact (silent_systemMove source goal).bind fun _ => (silent_tell _).bind fun _ => silent_pure _

theorem silent_notes (v : Vault) : Silent v.notes := by
  refine (silent_interrupt _).bind fun _ => silent_get_bind fun _ => ?_
  split <;> rfl

theorem silent_putSettings (v : Vault) (content : List UInt8) :
    Silent (v.putSettings content) := by
  refine silent_get_bind fun w => ?_
  dsimp only
  rw [runIn_ite]
  split
  · split
    · rfl
    · rw [runIn_set_bind]
      split <;> rfl
  · rfl

theorem silent_saveSettings (v : Vault) (r : Settings.Raw) : Silent (v.saveSettings r) := by
  rw [saveSettings]
  split
  · exact (silent_putSettings v _).bind fun _ => silent_tell _
  · exact (silent_putSettings v _).bind fun _ => silent_throw _

/-! ## The settings -/

/-- What the user is told when the settings could not be saved. -/
def unsavedNotice (e : Failure) : String := "設定を保存できませんでした: " ++ e.message

/-- The message about settings in a world, if the system refuses to save them. -/
def saveNotices (v : Vault) (r : Settings.Raw) (w : World) : List String :=
  match ((v.saveSettings r).runIn w).1 with
  | .error (.unsavedSettings path e) => [unsavedNotice (.unsavedSettings path e)]
  | _ => []

/-- The system refuses to save settings where it lets nothing be put into their file. -/
theorem saveNotices_eq (v : Vault) (r : Settings.Raw) (w : World) :
    v.saveNotices r w = match ((v.putSettings []).runIn w).1 with
      | .error e => [unsavedNotice e]
      | .ok _ => [] := by
  rcases hput : (v.putSettings []).runIn w with ⟨e | _, w'⟩
  · obtain ⟨path, cause, rfl⟩ := unsaved_of_putSettings hput
    rw [saveNotices, saveSettings_of_putSettings hput r]
  · rcases hsave : (v.saveSettings r).runIn w with ⟨e | _, w₁⟩
    · rcases saveSettings_error_cases hsave with ⟨-, hall⟩ | ⟨cut, -, rfl, -⟩
      · rw [hall []] at hput
        cases hput
      · rw [saveNotices, hsave]
    · rw [saveNotices, hsave]

/-- The message does not hang on the texts of the settings. -/
theorem saveNotices_stand (v : Vault) (r : Settings.Raw) (w : World) :
    v.saveNotices r.stand w = v.saveNotices r w := by
  rw [saveNotices_eq, saveNotices_eq]

/-- What the log says about settings that were read, and about what is made of them. -/
def loadEvents (loaded : Loaded) : List Event :=
  (loaded.log ++ loaded.raw.validatedLog).map .record

/-- The settings are read, and written as they can be used.  The user is told when the system
refuses to write them, and where a text of them cannot be encoded this ends the work. -/
theorem settleSettings_cases {around : Nat} {w w' : World} {r : Except Failure Settings}
    (h : (v.settleSettings around).runIn w = (r, w')) :
    (∃ e, v.settingsOn w.disk (around + 1) = .error e ∧ r = .error e ∧ w' = w) ∨
      ∃ loaded saved w₁, v.settingsOn w.disk (around + 1) = .ok loaded ∧
        (v.saveSettings loaded.raw.validated).runIn (w.heard (loadEvents loaded)) = (saved, w₁) ∧
        ((saved = .ok () ∧ r = .ok loaded.settings.validated ∧ w' = w₁) ∨
          (∃ path e, saved = .error (.unsavedSettings path e) ∧
            r = .ok loaded.settings.validated ∧
            (notify (unsavedNotice (.unsavedSettings path e))).runIn w₁ = (.ok (), w')) ∨
          ∃ cut, loaded.raw.validated.fileBytes? = .error cut ∧
            saved = .error (.notEncodable cut.error) ∧ r = .error (.notEncodable cut.error) ∧
            (v.putSettings cut.written).runIn (w.heard (loadEvents loaded)) = (.ok (), w') ∧
            w' = w₁) := by
  rw [settleSettings, loadSettings, bind_assoc, runIn_get_bind, bind_assoc,
    runIn_ofExcept_bind] at h
  rcases hload : v.settingsOn w.disk (around + 1) with e | loaded <;> rw [hload] at h
  · cases h
    exact Or.inl ⟨e, rfl, rfl, rfl⟩
  · dsimp only at h
    rw [bind_assoc, runIn_tellAll_bind, pure_bind, runIn_tellAll_bind] at h
    have hheard : (w.heard (loaded.log.map .record)).heard
        (loaded.raw.validatedLog.map .record) = w.heard (loadEvents loaded) := by
      simp [World.heard, loadEvents, List.append_assoc]
    have hsettings : loaded.raw.validated.stand = loaded.settings.validated :=
      loaded.raw.stand_validated
    rcases hsave : (v.saveSettings loaded.raw.validated).runIn (w.heard (loadEvents loaded))
      with ⟨saved, w₁⟩
    have hatt : (Act.attempt (v.saveSettings loaded.raw.validated)).runIn
        (w.heard (loadEvents loaded)) = (.ok saved, w₁) := by
      rw [runIn_attempt, hsave]
    rw [hheard, runIn_bind_of_ok hatt, hsettings] at h
    refine Or.inr ⟨loaded, saved, w₁, rfl, hsave, ?_⟩
    rcases saved with e | _
    · rcases saveSettings_error_cases hsave with
        ⟨⟨path, cause, rfl⟩, -⟩ | ⟨cut, hbytes, rfl, hput⟩ <;> cases h
      · exact Or.inr (Or.inl ⟨path, cause, rfl, rfl, rfl⟩)
      · exact Or.inr (Or.inr ⟨cut, hbytes, rfl, rfl, hput, rfl⟩)
    · cases h
      exact Or.inl ⟨rfl, rfl, rfl⟩

/-- Settings that were loaded are those that were read, as they can be used. -/
theorem of_settleSettings_eq_ok {around : Nat} {w w' : World} {s : Settings}
    (h : (v.settleSettings around).runIn w = (.ok s, w')) :
    ∃ loaded, v.settingsOn w.disk (around + 1) = .ok loaded ∧ s = loaded.settings.validated := by
  rcases settleSettings_cases h with ⟨e, -, he, -⟩ | ⟨loaded, saved, w₁, hload, -, hw'⟩
  · cases he
  · refine ⟨loaded, hload, ?_⟩
    rcases hw' with ⟨-, hs, -⟩ | ⟨_, _, -, hs, -⟩ | ⟨_, -, -, hs, -⟩
    · exact Except.ok.inj hs
    · exact Except.ok.inj hs
    · cases hs

/-- Without settings either they cannot be read, or one of their texts cannot be encoded. -/
theorem of_settleSettings_eq_error {around : Nat} {w w' : World} {e : Failure}
    (h : (v.settleSettings around).runIn w = (.error e, w')) :
    v.settingsOn w.disk (around + 1) = .error e ∨ ∃ cause, e = .notEncodable cause := by
  rcases settleSettings_cases h with ⟨_, hload, he, -⟩ | ⟨loaded, saved, w₁, -, -, hw'⟩
  · cases he
    exact Or.inl hload
  · rcases hw' with ⟨-, he, -⟩ | ⟨_, _, -, he, -⟩ | ⟨_, -, -, he, -⟩ <;> cases he
    exact Or.inr ⟨_, rfl⟩

/-- Saving comes to the same whatever was told before. -/
theorem saveSettings_heard (v : Vault) (r : Settings.Raw) (w : World) (events : List Event) :
    ((v.saveSettings r).runIn (w.heard events)).1 = ((v.saveSettings r).runIn w).1 :=
  (agrees_saveSettings v r w (w.heard events) ⟨rfl, rfl, rfl⟩).1

/-- The work on the settings tells at most that the system refused to save them, and nothing where
it fails. -/
theorem notices_of_settleSettings {around : Nat} {w w' : World} {r : Except Failure Settings}
    (h : (v.settleSettings around).runIn w = (r, w')) :
    w'.notices = w.notices ++ (match r with
      | .ok s => v.saveNotices s w
      | .error _ => []) := by
  rcases settleSettings_cases h with ⟨e, -, rfl, rfl⟩ | ⟨loaded, saved, w₁, -, hsave, hw'⟩
  · exact (List.append_nil _).symm
  · have hquiet : w₁.notices = (w.heard (loadEvents loaded)).notices :=
      (silent_saveSettings v _).of_runIn hsave
    have hsame := v.saveSettings_heard loaded.raw.validated w (loadEvents loaded)
    have htold : v.saveNotices loaded.settings.validated w =
        v.saveNotices loaded.raw.validated w := by
      have hstand : loaded.raw.validated.stand = loaded.settings.validated :=
        loaded.raw.stand_validated
      rw [← hstand, saveNotices_stand]
    rw [hsave] at hsame
    rcases hw' with ⟨rfl, rfl, rfl⟩ | ⟨path, e, rfl, rfl, hnotify⟩ | ⟨cut, -, rfl, rfl, -, rfl⟩
    · dsimp only
      rw [htold, saveNotices, ← hsame]
      exact hquiet.trans (List.append_nil _).symm
    · cases hnotify
      dsimp only
      rw [htold, saveNotices, ← hsame]
      exact congrArg (· ++ _) hquiet
    · exact hquiet.trans (List.append_nil _).symm

end NoteArchive.Vault
