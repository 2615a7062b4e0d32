import NoteArchive.Proofs.Settings.ReadBack

/-!
# Loading the settings again

The settings of a vault are made usable when they are loaded, and written back.  So the next load
makes them usable once more.

* `validated?_bind_validated?_iff`: what is asked for as settings, made usable twice.
* `Vault.saved_of_settleSettings`: a load that told nothing left its settings in the file.
* `Vault.settleSettings_of_saved`: settings in the file are loaded, and made usable.

At the end the next load is told from the ends of the target folder: a blank behind a slash is
taken away only by the second one.
-/

namespace NoteArchive

open Act

namespace Settings

/-- Where the two texts are texts, a draft is made usable once and for all exactly when no blank is
at the ends of its usable target folder.  The switches may hold any value. -/
theorem validated?_bind_validated?_iff (folder format : String) (showSummary useSubfolders : Json) :
    let d : Draft := ⟨.text folder, showSummary, .text format, useSubfolders⟩
    d.validated?.bind Draft.validated? = d.validated? ↔
      Text.trim Text.isBlank (resolveTarget folder).toList = (resolveTarget folder).toList := by
  intro d
  have honce (folder format : String) :
      Draft.validated? ⟨.text folder, showSummary, .text format, useSubfolders⟩ =
        some ⟨.text (resolveTarget folder), showSummary, .text (DateFormat.resolve format),
          useSubfolders⟩ := by
    rw [← Raw.resolveTarget_wide, ← DateFormat.resolveWide_wide]
    rfl
  rw [honce, Option.bind_some, honce, resolve_resolve, ← resolveTarget_resolveTarget_iff]
  simp [Text.wide_inj]

end Settings

namespace Vault

variable {v : Vault} {w w' w₁ : World} {s : Settings} {around : Nat}

/-- A load that told nothing left its settings in the file. -/
theorem saved_of_settleSettings (h : (v.settleSettings around).runIn w = (.ok s, w'))
    (hquiet : w'.notices = w.notices) :
    w'.disk.takesPath v.settingsFile.text = true ∧
      w'.disk.lookup v.settingsFile.place = .found (.file s.fileBytes) := by
  rcases settleSettings_cases h with ⟨e, -, he, -⟩ | ⟨loaded, saved, w₁, -, hsave, hw'⟩
  · cases he
  · rcases hw' with ⟨rfl, hs, rfl⟩ | ⟨path, e, rfl, hs, htold⟩ | ⟨_, -, -, hs, -⟩
    · obtain ⟨s', hs', hsaved⟩ := of_saveSettings hsave
      obtain rfl : s = s' := by
        have hstand : loaded.raw.validated.stand = loaded.settings.validated :=
          loaded.raw.stand_validated
        rw [Except.ok.inj hs, ← hstand, hs', Settings.stand_raw]
      exact hsaved
    · -- a failure to save would have been told
      have hw₁ : w₁.notices = (w.heard (loadEvents loaded)).notices :=
        (silent_saveSettings v _).of_runIn hsave
      cases htold
      have hnone : w₁.notices ++ [unsavedNotice (.unsavedSettings path e)] = w₁.notices :=
        hquiet.trans hw₁.symm
      simp at hnone
    · cases hs

/-- Settings that the search for the settings file finds are loaded, and made usable. -/
theorem settleSettings_of_saved (hnull : hasNull v.text = false)
    (haround : around + 1 < Json.nestingLimit)
    (htakes : w.disk.takesPath v.settingsFile.text = true)
    (hfound : w.disk.lookup v.settingsFile.place = .found (.file s.fileBytes)) :
    ((v.settleSettings around).runIn w).1 = .ok s.validated := by
  have hload : v.settingsOn w.disk (around + 1) = .ok (Settings.ofObject s.raw.toFields) := by
    rw [settingsOn_of_lookup hnull htakes hfound, Settings.ofBytes_fileBytes _ s haround]
  have hraw : (Settings.ofObject s.raw.toFields).raw = s := s.raw.ofFields_toFields
  rcases hrun : (v.settleSettings around).runIn w with ⟨r, w'⟩
  rcases settleSettings_cases hrun with ⟨e, he, -⟩ | ⟨loaded, saved, w₁, hok, -, hw'⟩
  · rw [hload] at he
    cases he
  · rw [hload] at hok
    cases hok
    rcases hw' with ⟨-, rfl, -⟩ | ⟨_, _, -, rfl, -⟩ | ⟨cut, hcut, -⟩
    · rw [Loaded.settings_eq hraw]
    · rw [Loaded.settings_eq hraw]
    · -- no half of a character is in settings that were saved
      rw [hraw, Settings.raw_validated, Settings.fileBytes?_raw] at hcut
      cases hcut

end Vault

open Vault

/-- Settings, their two texts given, are made usable once and for all exactly when no blank is at
the ends of their usable target folder.  So where settings were loaded and saved, which is when the
user was told nothing, and the settings file stayed as it was, the next load has these settings
exactly when no blank is at the ends of their target folder. -/
theorem settings_stay_iff (folder format : String) (showSummary useSubfolders : Json) :
    let d : Settings.Draft := ⟨.text folder, showSummary, .text format, useSubfolders⟩
    (d.validated?.bind Settings.Draft.validated? = d.validated? ↔
      Text.trim Text.isBlank (Settings.resolveTarget folder).toList =
        (Settings.resolveTarget folder).toList) ∧
    ∀ (v : Vault) (around around' : Nat) (w w' w₁ : World) (s : Settings),
      hasNull v.text = false → around' + 1 < Json.nestingLimit →
      (v.settleSettings around).runIn w = (.ok s, w') → w'.notices = w.notices →
      w₁.disk.lookup v.settingsFile.place = w'.disk.lookup v.settingsFile.place →
      w₁.disk.longestPath = w'.disk.longestPath →
      ∃ s', ((v.settleSettings around').runIn w₁).1 = .ok s' ∧
        (s' = s ↔ Text.trim Text.isBlank s.targetFolder.toList = s.targetFolder.toList) := by
  refine ⟨Settings.validated?_bind_validated?_iff folder format showSummary useSubfolders, ?_⟩
  intro v around around' w w' w₁ s hnull haround h hquiet hsame hlongest
  obtain ⟨htakes, hfound⟩ := saved_of_settleSettings h hquiet
  have htakes₁ : w₁.disk.takesPath v.settingsFile.text = true := by
    rw [Disk.takesPath, hlongest]
    exact htakes
  refine ⟨s.validated, settleSettings_of_saved hnull haround htakes₁ (hsame.trans hfound), ?_⟩
  obtain ⟨loaded, -, rfl⟩ := of_settleSettings_eq_ok h
  exact Settings.validated_validated_iff loaded.settings

/-- Blanks around the slashes of the target folder, and a format that cannot be used: all is in
order after the first load. -/
theorem settings_stay_of_slashes_in_blanks :
    let v : Vault := ⟨⟨"/", ["v"]⟩, ["v"]⟩
    let w : World := .ofDisk
      { entries := [(["v"], .folder), (["v", ".daily_note_mover"], .folder),
          (["v", ".daily_note_mover", "data.json"], .file (Text.Utf8.encode
            "\x7b\"target_folder\": \" /A/ \", \"date_format\": \"DD-MM/YYYY\"\x7d".toList))] }
    let s : Settings := { targetFolder := "A" }
    let d : Settings.Draft := ⟨.text " /A/ ", .bool true, .text "DD-MM/YYYY", .bool false⟩
    d.validated?.bind Settings.Draft.validated? = d.validated? ∧
      ∃ w', (v.settleSettings 0).runIn w = (.ok s, w') ∧
        ((v.settleSettings 0).runIn w').1 = .ok s := by
  intro v w s d
  have hfirst : ((v.settleSettings 0).runIn w).1.toOption = some s := by decide +kernel
  have hquiet : ((v.settleSettings 0).runIn w).2.notices = w.notices := by decide +kernel
  rcases hrun : (v.settleSettings 0).runIn w with ⟨r, w'⟩
  rw [hrun] at hfirst hquiet
  obtain rfl := eq_ok_of_toOption hfirst
  obtain ⟨htwice, hload⟩ := settings_stay_iff " /A/ " "DD-MM/YYYY" (.bool true) (.bool false)
  obtain ⟨s', hs', hiff⟩ := hload v 0 0 w w' w' s (by decide) (by decide) hrun hquiet rfl rfl
  obtain rfl := hiff.2 (by decide +kernel)
  exact ⟨htwice.2 (by decide +kernel), w', rfl, hs'⟩

/-- A slash and a blank in front of the target folder: the second load takes away the blank. -/
theorem settings_change_with_blank_behind_slash :
    let v : Vault := ⟨⟨"/", ["v"]⟩, ["v"]⟩
    let w : World := .ofDisk
      { entries := [(["v"], .folder), (["v", ".daily_note_mover"], .folder),
          (["v", ".daily_note_mover", "data.json"],
            .file (Text.Utf8.encode "\x7b\"target_folder\": \"/ A\"\x7d".toList))] }
    let s : Settings := { targetFolder := "/ A" }
    s.validated.validated ≠ s.validated ∧
      ∃ w', (v.settleSettings 0).runIn w = (.ok s.validated, w') ∧ w'.notices = w.notices ∧
        ((v.settleSettings 0).runIn w').1 = .ok s.validated.validated := by
  intro v w s
  have hchange : s.validated.validated ≠ s.validated := by decide +kernel
  have hfirst : ((v.settleSettings 0).runIn w).1.toOption = some s.validated := by decide +kernel
  have hquiet : ((v.settleSettings 0).runIn w).2.notices = w.notices := by decide +kernel
  have hsecond : ((v.settleSettings 0).runIn ((v.settleSettings 0).runIn w).2).1.toOption =
      some s.validated.validated := by decide +kernel
  rcases hrun : (v.settleSettings 0).runIn w with ⟨r, w'⟩
  rw [hrun] at hfirst hquiet hsecond
  obtain rfl := eq_ok_of_toOption hfirst
  exact ⟨hchange, w', rfl, hquiet, eq_ok_of_toOption hsecond⟩

end NoteArchive
