import NoteArchive.Proofs.Json.RoundTrip
import NoteArchive.Proofs.Settings.Saving
import NoteArchive.Proofs.Settings.Validation
import NoteArchive.Proofs.Text.Utf8

/-!
# Reading the settings file back

* `ofBytes_fileBytes`: what the settings file holds is read as the settings it was written for.
* `eq_of_ofBytes_fileBytes`: whenever it can be read at all.
* `fileBytes_injective`: so different settings make different files.
* `Vault.Keeps`: a disk has the settings in its settings file, or they are the usual ones and the
  file can be neither read nor written.
* `keeps_savedOn`, `Keeps.raw_eq`, `Keeps.savedOn_eq`: so it is when the settings were written;
  they are read again then, and writing them again changes nothing.
-/

namespace NoteArchive

open Text (wide)

theorem Text.unixNewlines_of_not_mem {s : List Char} (h : '\r' ∉ s) : unixNewlines s = s := by
  induction s with
  | nil => rfl
  | cons c rest ih =>
    rw [List.mem_cons, not_or] at h
    cases rest with
    | nil =>
      rw [unixNewlines]
      exact if_neg (Ne.symm h.1)
    | cons d more =>
      rw [unixNewlines, if_neg (Ne.symm h.1), ih h.2]

namespace Settings

variable {s : Settings} {path : String} {around : Nat} {loaded : Loaded}

theorem nodup_toFields (s : Settings) :
    ((Json.plainFields (s.targetField :: s.otherFields)).map Prod.fst).Nodup := by
  have hnames : (Json.plainFields (s.targetField :: s.otherFields)).map Prod.fst =
      [wide targetFolderName, wide showSummaryName, wide dateFormatName,
        wide useSubfoldersName] := by
    simp [Json.plainFields, targetField, otherFields]
  rw [hnames]
  decide

theorem unixNewlines_indented (s : Settings) :
    Text.unixNewlines s.raw.toJson.indented = s.raw.toJson.indented :=
  Text.unixNewlines_of_not_mem (Json.return_not_mem_indented s.targetField s.otherFields)

/-- What the bytes of a text are made into is what the text is made into. -/
theorem ofBytes_encode (path : String) (text : List Char) (around : Nat) :
    ofBytes path (Text.Utf8.encode text) around = ofText path text around := by
  rw [ofBytes, Text.Utf8.decode_encode]

/-- What the settings file holds is read as the settings for which it was written. -/
theorem ofBytes_fileBytes (path : String) (s : Settings) (h : around < Json.nestingLimit) :
    ofBytes path s.fileBytes around = .ok (ofObject s.raw.toFields) := by
  obtain ⟨limit, hlimit⟩ : ∃ n, Json.nestingLimit - around = n + 1 :=
    ⟨Json.nestingLimit - around - 1, by omega⟩
  have hread : Json.read s.raw.toJson.indented (limit + 1) = .ok (.object s.raw.toFields) :=
    Json.read_indented (nodup_toFields s) limit
  rw [fileBytes, ofBytes_encode, ofText, unixNewlines_indented, hlimit, hread]

/-- Whenever the settings file can be read at all, it is read so. -/
theorem eq_of_ofBytes_fileBytes (h : ofBytes path s.fileBytes around = .ok loaded) :
    loaded.raw = s := by
  by_cases ha : around < Json.nestingLimit
  · rw [ofBytes_fileBytes path s ha] at h
    cases h
    exact s.raw.ofFields_toFields
  · have hlimit : Json.nestingLimit - around = 0 := by omega
    obtain ⟨e, hread, he⟩ : ∃ e, Json.read s.raw.toJson.indented 0 = .error e ∧
        e.fault.isLimit = true := Json.read_indented_zero s.targetField s.otherFields
    rw [fileBytes, ofBytes_encode, ofText, unixNewlines_indented, hlimit, hread] at h
    dsimp only at h
    rw [if_pos he] at h
    cases h

theorem fileBytes_injective {s s' : Settings} (h : s.fileBytes = s'.fileBytes) : s = s' := by
  have hs : ofBytes "" s'.fileBytes 0 = .ok (ofObject s'.raw.toFields) :=
    ofBytes_fileBytes "" s' (by decide)
  rw [← h] at hs
  exact (raw_inj.1 (eq_of_ofBytes_fileBytes hs)).symm

end Settings

/-- Settings without halves of characters are the settings that were read. -/
theorem Loaded.settings_eq {loaded : Loaded} {s : Settings} (h : loaded.raw = s) :
    loaded.settings = s := by
  rw [Loaded.settings, h, Settings.stand_raw]

/-! ## The settings file on a disk -/

namespace Vault

variable {v : Vault} {d : Disk} {s : Settings} {around : Nat} {loaded : Loaded}

/-- A disk has the settings in its settings file, or they are the usual ones and no file can be
there: a folder has its name, or a file that of its folder. -/
def Keeps (v : Vault) (d : Disk) (s : Settings) : Prop :=
  d.get? v.settingsFile.place = some (.file s.fileBytes) ∨
    (s = .usual ∧ (d.get? v.settingsFile.place = some .folder ∨ d.IsFile v.settingsFolder.place))

/-- Neither the name of the settings file nor that of its folder has a null character. -/
theorem hasNull_settingsFile (v : Vault) : hasNull v.settingsFile.text = hasNull v.text := by
  have hnames : [".daily_note_mover", "data.json"].any hasNull = false := by decide
  rw [settingsFile, hasNull_spot, hnames, Bool.or_false]

/-- Settings can be read only if the system takes the path of their file. -/
theorem accepted_settingsFile (hnull : hasNull v.text = false)
    (h : v.settingsOn d around = .ok loaded) : v.settingsFile.Accepted d := by
  rw [← hasNull_settingsFile] at hnull
  refine ⟨hnull, ?_⟩
  by_contra htakes
  rw [settingsOn] at h
  unfold Spot.isThere Spot.entry? at h
  rw [if_neg (by simp [hnull]), Spot.lookup, if_neg htakes] at h
  cases h

theorem settingsOn_of_file (ht : d.IsTree) (hacc : v.settingsFile.Accepted d) {bytes : List UInt8}
    (h : d.get? v.settingsFile.place = some (.file bytes)) (around : Nat) :
    v.settingsOn d around = Settings.ofBytes v.settingsFile.text bytes around := by
  have hthere := (Spot.isThere_eq_true_iff ht).2 ⟨hacc, _, h⟩
  rw [settingsOn]
  simp only [hthere, h]
  rfl

/-- Where no settings file is, the settings are the usual ones. -/
theorem raw_eq_usual (h : ¬ d.IsFile v.settingsFile.place)
    (hload : v.settingsOn d around = .ok loaded) : loaded.raw = Settings.usual := by
  rw [settingsOn] at hload
  rcases hthere : v.settingsFile.isThere d with e | _ | _ <;> rw [hthere] at hload
  · cases hload
  · cases hload
    rfl
  · rcases d.get?_cases v.settingsFile.place with hn | hf | hfile
    · simp only [hn, bind, Except.bind] at hload
      cases hload
      rfl
    · simp only [hf, bind, Except.bind] at hload
      cases hload
      rfl
    · exact absurd hfile h

theorem not_isFile_settingsFile (ht : d.IsTree)
    (h : d.get? v.settingsFile.place = some .folder ∨ d.IsFile v.settingsFolder.place) :
    ¬ d.IsFile v.settingsFile.place := by
  rcases h with hfolder | hfile
  · exact Disk.not_isFile_of_folder hfolder
  · rw [settingsFile_place]
    exact Disk.not_isFile_of_none (ht.none_under_file hfile (by simp))

/-- Half a character comes from a settings file, which can be written again. -/
theorem canSave_of_cut {cut : Json.Cut} (ht : d.IsTree) (hnull : hasNull v.text = false)
    (hload : v.settingsOn d around = .ok loaded)
    (hcut : loaded.raw.validated.fileBytes? = .error cut) : v.CanSave d := by
  by_cases hfile : d.IsFile v.settingsFile.place
  · obtain ⟨bytes, hbytes⟩ := hfile
    exact canSave_of_file ht (accepted_settingsFile hnull hload).takes hbytes
  · rw [raw_eq_usual hfile hload, Settings.raw_validated, Settings.fileBytes?_raw] at hcut
    cases hcut

/-- So it ends the work on the settings, and their file ends before it. -/
theorem runIn_settleSettings_of_cut {w : World} {cut : Json.Cut} (ht : w.disk.IsTree)
    (hroot : w.disk.get? v.place = some .folder) (hnull : hasNull v.text = false)
    (hload : v.settingsOn w.disk (around + 1) = .ok loaded)
    (hcut : loaded.raw.validated.fileBytes? = .error cut) :
    ∃ w', (v.settleSettings around).runIn w = (.error (.notEncodable cut.error), w') ∧
      World.Like { w with disk := v.savedOn w.disk cut.written } w' := by
  obtain ⟨w₁, hput⟩ := (putSettings_succeeds_iff (w := w.heard (loadEvents loaded)) ht hroot
    cut.written).2 (canSave_of_cut ht hnull hload hcut)
  have hlike := like_putSettings (w := w.heard (loadEvents loaded)) ht hroot cut.written
  rw [hput] at hlike
  rcases hrun : (v.settleSettings around).runIn w with ⟨r, w'⟩
  rcases settleSettings_cases hrun with ⟨e, he, -⟩ | ⟨loaded', saved, w₂, hload', hsave, hw'⟩
  · rw [hload] at he
    cases he
  · obtain rfl := Except.ok.inj (hload.symm.trans hload')
    rw [saveSettings_of_cut hcut hput] at hsave
    obtain ⟨rfl, rfl⟩ := Prod.mk.inj hsave
    rcases hw' with ⟨hsaved, -⟩ | ⟨_, _, hsaved, -⟩ | ⟨_, hcut', -, rfl, -, rfl⟩
    · cases hsaved
    · cases hsaved
    · obtain rfl := Except.error.inj (hcut.symm.trans hcut')
      exact ⟨_, rfl, hlike.of_heard⟩

/-- Without it the settings that were read are used. -/
theorem settleSettings_of_plain {w : World} (hload : v.settingsOn w.disk (around + 1) = .ok loaded)
    (hs : loaded.raw.validated = s) :
    ∃ w', (v.settleSettings around).runIn w = (.ok s, w') := by
  have hsettings : loaded.settings.validated = s := by
    have hstand : loaded.raw.validated.stand = loaded.settings.validated :=
      loaded.raw.stand_validated
    rw [← hstand, hs, Settings.stand_raw]
  rcases hrun : (v.settleSettings around).runIn w with ⟨r, w'⟩
  rcases settleSettings_cases hrun with ⟨e, he, -⟩ | ⟨loaded', saved, w₁, hload', -, hw'⟩
  · rw [hload] at he
    cases he
  · obtain rfl := Except.ok.inj (hload.symm.trans hload')
    rcases hw' with ⟨-, rfl, -⟩ | ⟨_, _, -, rfl, -⟩ | ⟨cut, hcut, -⟩
    · exact ⟨w', by rw [hsettings]⟩
    · exact ⟨w', by rw [hsettings]⟩
    · rw [hs, Settings.fileBytes?_raw] at hcut
      cases hcut

/-- The settings file has what was written, unless a folder has its name or a file that of its
folder. -/
theorem get?_savedOn_self (ht : d.IsTree) (htakes : d.takesPath v.settingsFile.text = true)
    (hfolder : ¬ d.IsFile v.settingsFolder.place)
    (hfile : d.get? v.settingsFile.place ≠ some .folder) (content : List UInt8) :
    (v.savedOn d content).get? v.settingsFile.place = some (.file content) := by
  have hplace : v.settingsFile.place ≠ [] := by simp [settingsFile_place]
  rcases d.get?_cases v.settingsFolder.place with hn | hf | hf
  · -- the folder is new, and so nothing is in it
    have hd : v.withSettingsFolder d = d.insert v.settingsFolder.place .folder :=
      if_pos ⟨takesPath_settingsFolder htakes, hn⟩
    have hself : (d.insert v.settingsFolder.place .folder).get? v.settingsFolder.place =
        some .folder := Disk.get?_insert_self (by simp [settingsFolder_place]) hn _
    have hnone : d.get? v.settingsFile.place = none := by
      rw [settingsFile_place]
      exact ht.none_under_none hn _
    have hne : (d.insert v.settingsFolder.place .folder).get? v.settingsFile.place ≠
        some .folder := by
      rw [Disk.get?_insert_of_ne (settingsFile_ne_settingsFolder v), hnone]
      simp
    rw [savedOn]
    simp only [hd]
    rw [if_pos ⟨htakes, hself, hne⟩]
    exact Disk.get?_putFile_self hplace _ content
  · have hd : v.withSettingsFolder d = d := withSettingsFolder_of_some hf
    rw [savedOn]
    simp only [hd]
    rw [if_pos ⟨htakes, hf, hfile⟩]
    exact Disk.get?_putFile_self hplace _ content
  · exact absurd hf hfolder

/-- What was read and made usable is kept when it is written. -/
theorem keeps_savedOn (ht : d.IsTree) (hacc : v.settingsFile.Accepted d)
    (hload : v.settingsOn d around = .ok loaded) :
    v.Keeps (v.savedOn d loaded.settings.validated.fileBytes) loaded.settings.validated := by
  by_cases hblocked : d.get? v.settingsFile.place = some .folder ∨ d.IsFile v.settingsFolder.place
  · have husual := raw_eq_usual (not_isFile_settingsFile ht hblocked) hload
    rw [Loaded.settings_eq husual, Settings.validated_usual]
    refine Or.inr ⟨rfl, ?_⟩
    rcases hblocked with hfolder | hfile
    · exact Or.inl (folder_savedOn _ hfolder)
    · rw [savedOn_of_isFile hfile]
      exact Or.inr hfile
  · rw [not_or] at hblocked
    exact Or.inl (get?_savedOn_self ht hacc.takes hblocked.2 hblocked.1 _)

namespace Keeps

/-- Settings that are kept are those that are read. -/
theorem raw_eq (h : v.Keeps d s) (ht : d.IsTree) (hacc : v.settingsFile.Accepted d)
    (hload : v.settingsOn d around = .ok loaded) : loaded.raw = s := by
  rcases h with hfile | ⟨rfl, hblocked⟩
  · rw [settingsOn_of_file ht hacc hfile] at hload
    exact Settings.eq_of_ofBytes_fileBytes hload
  · exact raw_eq_usual (not_isFile_settingsFile ht hblocked) hload

/-- Settings that are kept can be written again without any change. -/
theorem savedOn_eq (h : v.Keeps d s) (ht : d.IsTree) : v.savedOn d s.fileBytes = d := by
  have habove : ∀ {e}, d.get? v.settingsFile.place = some e → v.withSettingsFolder d = d := by
    intro e he
    rw [settingsFile_place] at he
    exact withSettingsFolder_of_some (ht.folder_of_append he (by simp))
  rcases h with hfile | ⟨-, hfolder | hfile⟩
  · rw [savedOn]
    simp only [habove hfile]
    split
    · exact Disk.putFile_self hfile
    · rfl
  · rw [savedOn]
    simp only [habove hfolder]
    exact if_neg fun hc => hc.2.2 hfolder
  · exact savedOn_of_isFile hfile _

end Keeps

end Vault

end NoteArchive
