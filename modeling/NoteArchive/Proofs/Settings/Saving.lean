import NoteArchive.Proofs.Disk.MakeFolders
import NoteArchive.Proofs.Vault.Silence
import NoteArchive.Settings.Store

/-!
# Saving the settings of a vault

* `World.Like`: worlds that differ at most in what was told and in the home folder.
* `Vault.savedOn`: the disk after the settings file was written, as far as it could be.
* `like_putSettings`: putting a content into the settings file comes to this disk.
* `CanSave`, `putSettings_succeeds_iff`: when this can be done.
* `like_saveSettings`: what saving settings comes to.
* `runIn_settleSettings`: what the work on the settings comes to: the settings as they can be used,
  or a settings file that ends before a text that cannot be encoded.
* `get?_savedOn_of_ne`, `folder_savedOn`, `folder_of_savedOn`: what can be different then.
-/

namespace NoteArchive

open Act

/-- Worlds that differ at most in what was told and in the home folder. -/
structure World.Like (w w' : World) : Prop extends w.Agrees w' where
  clock : w'.clock = w.clock

namespace World.Like

variable {w w' w'' : World}

theorem refl (w : World) : w.Like w := ⟨.refl w, rfl⟩

theorem trans (h : w.Like w') (h' : w'.Like w'') : w.Like w'' :=
  ⟨h.toAgrees.trans h'.toAgrees, h'.clock.trans h.clock⟩

theorem heard (h : w.Like w') (events : List Event) : w.Like (w'.heard events) :=
  ⟨⟨h.disk, h.intrusions, h.permitted⟩, h.clock⟩

theorem of_heard {d : Disk} {events : List Event}
    (h : World.Like { w.heard events with disk := d } w') : World.Like { w with disk := d } w' :=
  ⟨⟨h.disk, h.intrusions, h.permitted⟩, h.clock⟩

end World.Like

namespace Vault

variable {v : Vault}

/-- The disk with the folder of the settings file, if it could be made. -/
def withSettingsFolder (v : Vault) (d : Disk) : Disk :=
  if d.takesPath v.settingsFolder.text ∧ d.get? v.settingsFolder.place = none then
    d.insert v.settingsFolder.place .folder
  else d

/-- The disk with a settings file, as far as it could be written. -/
def savedOn (v : Vault) (d : Disk) (content : List UInt8) : Disk :=
  let d' := v.withSettingsFolder d
  if d'.takesPath v.settingsFile.text ∧ d'.get? v.settingsFolder.place = some .folder ∧
      d'.get? v.settingsFile.place ≠ some .folder then
    d'.putFile v.settingsFile.place content
  else d'

/-! ## The file and its folder -/

theorem settingsFolder_place (v : Vault) :
    v.settingsFolder.place = v.place ++ [".daily_note_mover"] := rfl

theorem settingsFile_place (v : Vault) :
    v.settingsFile.place = v.settingsFolder.place ++ ["data.json"] := by
  rw [settingsFolder_place, List.append_assoc]
  rfl

theorem settingsFile_ne_settingsFolder (v : Vault) :
    v.settingsFile.place ≠ v.settingsFolder.place := by
  rw [settingsFile_place]
  simp

theorem isName_settingsFolder : IsName ".daily_note_mover" :=
  ⟨by decide, by decide, by decide, by decide, by decide, by decide⟩

theorem isName_settingsFile : IsName "data.json" :=
  ⟨by decide, by decide, by decide, by decide, by decide, by decide⟩

/-- The path of the file is longer than that of its folder. -/
theorem takesPath_settingsFolder {d : Disk} (h : d.takesPath v.settingsFile.text = true) :
    d.takesPath v.settingsFolder.text = true := by
  have hle := Path.utf8ByteSize_text_join_le v.path (List.cons_ne_nil ".daily_note_mover" [])
    ["data.json"]
  rw [Disk.takesPath, decide_eq_true_iff] at h ⊢
  exact Nat.le_trans hle h

theorem isTree_withSettingsFolder {d : Disk} (ht : d.IsTree)
    (hroot : d.get? v.place = some .folder) : (v.withSettingsFolder d).IsTree := by
  rw [withSettingsFolder]
  split
  · next h => exact ht.insert isName_settingsFolder hroot h.2 .folder
  · exact ht

/-! ## Writing -/

theorem withSettingsFolder_of_some {d : Disk} {e : Entry}
    (h : d.get? v.settingsFolder.place = some e) : v.withSettingsFolder d = d := by
  rw [withSettingsFolder, if_neg]
  rintro ⟨-, hn⟩
  rw [h] at hn
  cases hn

/-- Either the folder is there then, or a file has its name. -/
theorem makeFolders_settingsFolder {d : Disk} (ht : d.IsTree)
    (hroot : d.get? v.place = some .folder)
    (htakes : d.takesPath v.settingsFolder.text = true) :
    (d.makeFolders v.settingsFolder.place = .ok (v.withSettingsFolder d) ∧
        (v.withSettingsFolder d).get? v.settingsFolder.place = some .folder) ∨
      (v.withSettingsFolder d = d ∧ d.IsFile v.settingsFolder.place ∧
        ∃ r, d.makeFolders v.settingsFolder.place = .error r ∧ r.disk = d) := by
  rcases ht.makeFolders_concat hroot isName_settingsFolder.short with
    ⟨hn, hmake⟩ | ⟨hf, hmake⟩ | ⟨hfile, hmake⟩
  · have hd : v.withSettingsFolder d = d.insert v.settingsFolder.place .folder :=
      if_pos ⟨htakes, hn⟩
    rw [hd]
    exact Or.inl ⟨hmake, Disk.get?_insert_self (by simp) hn _⟩
  · rw [withSettingsFolder_of_some hf]
    exact Or.inl ⟨hmake, hf⟩
  · obtain ⟨bytes, hb⟩ := id hfile
    exact Or.inr ⟨withSettingsFolder_of_some hb, hfile, hmake⟩

theorem savedOn_of_not_takesPath {d : Disk} (h : d.takesPath v.settingsFolder.text ≠ true)
    (content : List UInt8) : v.savedOn d content = d := by
  have hd : v.withSettingsFolder d = d := if_neg fun hc => h hc.1
  rw [savedOn]
  simp only [hd]
  exact if_neg fun hc => h (takesPath_settingsFolder hc.1)

theorem savedOn_of_isFile {d : Disk} (h : d.IsFile v.settingsFolder.place)
    (content : List UInt8) : v.savedOn d content = d := by
  obtain ⟨bytes, hb⟩ := h
  rw [savedOn, withSettingsFolder_of_some hb]
  refine if_neg fun hc => ?_
  rw [hb] at hc
  exact absurd hc.2.1 (by simp)

/-- Putting a content into the settings file comes to `savedOn`, whether it fails or not. -/
theorem like_putSettings {w : World} (ht : w.disk.IsTree)
    (hroot : w.disk.get? v.place = some .folder) (content : List UInt8) :
    World.Like { w with disk := v.savedOn w.disk content }
      ((v.putSettings content).runIn w).2 := by
  rw [putSettings, runIn_get_bind]
  -- three things can stop it: a path the system refuses, a file for a folder, a folder for a file
  by_cases htakes : w.disk.takesPath v.settingsFolder.text = true
  · rw [if_pos htakes]
    rcases makeFolders_settingsFolder ht hroot htakes with
      ⟨hmake, hfolder⟩ | ⟨-, hfile, r, hmake, hr⟩
    · have ht' := isTree_withSettingsFolder ht hroot
      rw [hmake]
      dsimp only
      rw [runIn_set_bind, Spot.change]
      by_cases hlong : (v.withSettingsFolder w.disk).takesPath v.settingsFile.text = true
      · rw [if_pos hlong]
        rcases ht'.writeFile_concat hfolder isName_settingsFile.short content with
          ⟨hdir, hwrite⟩ | ⟨hdir, hwrite⟩ <;> rw [← settingsFile_place] at hdir hwrite <;>
          rw [hwrite]
        · refine ⟨⟨?_, rfl, rfl⟩, rfl⟩
          exact (if_neg fun hc => hc.2.2 hdir).symm
        · refine ⟨⟨?_, rfl, rfl⟩, rfl⟩
          exact (if_pos ⟨hlong, hfolder, hdir⟩).symm
      · rw [if_neg hlong]
        refine ⟨⟨?_, rfl, rfl⟩, rfl⟩
        exact (if_neg fun hc => hlong hc.1).symm
    · rw [hmake]
      refine ⟨⟨?_, rfl, rfl⟩, rfl⟩
      exact hr.trans (savedOn_of_isFile hfile content).symm
  · rw [if_neg htakes, runIn_throw_bind]
    refine ⟨⟨?_, rfl, rfl⟩, rfl⟩
    exact (savedOn_of_not_takesPath htakes content).symm

theorem like_writeSettings {w : World} (ht : w.disk.IsTree)
    (hroot : w.disk.get? v.place = some .folder) (content : List UInt8) :
    World.Like { w with disk := v.savedOn w.disk content }
      ((v.writeSettings content).runIn w).2 := by
  have hlike := like_putSettings ht hroot content
  rw [writeSettings, runIn_bind]
  rcases hput : (v.putSettings content).runIn w with ⟨e | _, w₁⟩ <;> rw [hput] at hlike
  · exact hlike
  · exact hlike.heard _

/-- The settings file can be written: the system takes its path, and neither a file has the name of
its folder nor a folder that of the file. -/
structure CanSave (v : Vault) (d : Disk) : Prop where
  takes : d.takesPath v.settingsFile.text = true
  folder : ¬ d.IsFile v.settingsFolder.place
  free : d.get? v.settingsFile.place ≠ some .folder

/-- A settings file that is there can be written again. -/
theorem canSave_of_file {bytes : List UInt8} (ht : d.IsTree)
    (htakes : d.takesPath v.settingsFile.text = true)
    (hfile : d.get? v.settingsFile.place = some (.file bytes)) : v.CanSave d := by
  refine ⟨htakes, fun hfolder => ?_, fun h => ?_⟩
  · rw [settingsFile_place, ht.none_under_file hfolder (by simp)] at hfile
    cases hfile
  · rw [hfile] at h
    cases h

theorem takesPath_withSettingsFolder (v : Vault) (d : Disk) (text : String) :
    (v.withSettingsFolder d).takesPath text = d.takesPath text := by
  rw [withSettingsFolder]
  split <;> rfl

/-- Nothing else keeps a content from the settings file. -/
theorem putSettings_succeeds_iff {w : World} (ht : w.disk.IsTree)
    (hroot : w.disk.get? v.place = some .folder) (content : List UInt8) :
    (∃ w', (v.putSettings content).runIn w = (.ok (), w')) ↔ v.CanSave w.disk := by
  rw [putSettings, runIn_get_bind]
  by_cases htakes : w.disk.takesPath v.settingsFolder.text = true
  · rw [if_pos htakes]
    rcases makeFolders_settingsFolder ht hroot htakes with
      ⟨hmake, hfolder⟩ | ⟨-, hfile, r, hmake, -⟩
    · have hnofile : ¬ w.disk.IsFile v.settingsFolder.place := by
        intro hfile
        obtain ⟨bytes, hb⟩ := id hfile
        rw [withSettingsFolder_of_some hb] at hfolder
        exact Disk.not_isFile_of_folder hfolder hfile
      have ht' := isTree_withSettingsFolder ht hroot
      rw [hmake]
      dsimp only
      rw [runIn_set_bind, Spot.change, takesPath_withSettingsFolder]
      by_cases hlong : w.disk.takesPath v.settingsFile.text = true
      · rw [if_pos hlong]
        -- a new folder has nothing in it
        have hsame : (v.withSettingsFolder w.disk).get? v.settingsFile.place =
            w.disk.get? v.settingsFile.place := by
          rw [withSettingsFolder]
          split
          · exact Disk.get?_insert_of_ne (settingsFile_ne_settingsFolder v) _ _
          · rfl
        rcases ht'.writeFile_concat hfolder isName_settingsFile.short content with
          ⟨hdir, hwrite⟩ | ⟨hdir, hwrite⟩ <;>
          rw [← settingsFile_place, hsame] at hdir <;>
          rw [← settingsFile_place] at hwrite <;> rw [hwrite]
        · exact iff_of_false (by rintro ⟨_, h⟩; cases h) fun h => h.free hdir
        · exact iff_of_true ⟨_, rfl⟩ ⟨hlong, hnofile, hdir⟩
      · rw [if_neg hlong]
        exact iff_of_false (by rintro ⟨_, h⟩; cases h) fun h => hlong h.takes
    · rw [hmake]
      exact iff_of_false (by rintro ⟨_, h⟩; cases h) fun h => h.folder hfile
  · rw [if_neg htakes, runIn_throw_bind]
    exact iff_of_false (by rintro ⟨_, h⟩; cases h) fun h =>
      htakes (takesPath_settingsFolder h.takes)

/-- Where a content cannot be put into the settings file, it makes no difference which. -/
theorem savedOn_of_not_canSave {d : Disk} (h : ¬ v.CanSave d) (content : List UInt8) :
    v.savedOn d content = v.withSettingsFolder d := by
  refine if_neg fun hc => h ?_
  refine ⟨(takesPath_withSettingsFolder v d _).symm.trans hc.1, ?_, ?_⟩
  · rintro ⟨bytes, hb⟩
    rw [withSettingsFolder_of_some hb, hb] at hc
    cases hc.2.1
  · intro hfile
    have hkept : (v.withSettingsFolder d).get? v.settingsFile.place = some .folder := by
      rw [withSettingsFolder]
      split
      · rw [Disk.get?_insert_of_ne (settingsFile_ne_settingsFolder v), hfile]
      · exact hfile
    exact hc.2.2 hkept

/-- Saving settings comes to `savedOn`: with the content for them, or with what stands before the
first text that cannot be encoded. -/
theorem like_saveSettings {w w' : World} (ht : w.disk.IsTree)
    (hroot : w.disk.get? v.place = some .folder) {r : Settings.Raw} {saved : Except Failure Unit}
    (h : (v.saveSettings r).runIn w = (saved, w')) :
    (∃ cut, r.fileBytes? = .error cut ∧ saved = .error (.notEncodable cut.error) ∧
        World.Like { w with disk := v.savedOn w.disk cut.written } w') ∨
      ((saved = .ok () ∨ ∃ path e, saved = .error (.unsavedSettings path e)) ∧
        World.Like { w with disk := v.savedOn w.disk r.stand.fileBytes } w') := by
  rcases hbytes : r.fileBytes? with cut | content
  · rw [saveSettings, hbytes] at h
    rcases hput : (v.putSettings cut.written).runIn w with ⟨e | _, w₁⟩ <;>
      have hlike := like_putSettings ht hroot cut.written <;> rw [hput] at hlike
    · rw [runIn_bind_of_error hput] at h
      cases h
      have hcan : ¬ v.CanSave w.disk := by
        rw [← putSettings_succeeds_iff ht hroot cut.written, hput]
        rintro ⟨_, hok⟩
        cases hok
      obtain ⟨path, cause, rfl⟩ := unsaved_of_putSettings hput
      rw [savedOn_of_not_canSave hcan] at hlike ⊢
      exact Or.inr ⟨Or.inr ⟨path, cause, rfl⟩, hlike⟩
    · rw [runIn_bind_of_ok hput] at h
      cases h
      exact Or.inl ⟨cut, rfl, rfl, hlike⟩
  · obtain ⟨s, rfl, rfl⟩ := Settings.fileBytes?_eq_ok_iff.1 hbytes
    have hlike := like_writeSettings ht hroot s.fileBytes
    rw [saveSettings_raw] at h
    rw [h] at hlike
    rw [Settings.stand_raw]
    refine Or.inr ⟨?_, hlike⟩
    cases saved with
    | ok _ => exact Or.inl rfl
    | error e =>
      rw [← saveSettings_raw] at h
      rcases saveSettings_error_cases h with ⟨⟨path, cause, rfl⟩, -⟩ | ⟨cut, hcut, -⟩
      · exact Or.inr ⟨path, cause, rfl⟩
      · rw [hbytes] at hcut
        cases hcut

/-- The work on the settings fails where they cannot be read.  Else the settings as they can be
used are the result, and were written as far as the system let this be done; or one of their texts
cannot be encoded, and the settings file ends before it. -/
theorem runIn_settleSettings {w : World} (ht : w.disk.IsTree)
    (hroot : w.disk.get? v.place = some .folder) (around : Nat) :
    (∃ e, v.settingsOn w.disk (around + 1) = .error e ∧
        (v.settleSettings around).runIn w = (.error e, w)) ∨
      (∃ loaded w', v.settingsOn w.disk (around + 1) = .ok loaded ∧
        (v.settleSettings around).runIn w = (.ok loaded.settings.validated, w') ∧
        World.Like
          { w with disk := v.savedOn w.disk loaded.settings.validated.fileBytes } w') ∨
      ∃ loaded cut w', v.settingsOn w.disk (around + 1) = .ok loaded ∧
        loaded.raw.validated.fileBytes? = .error cut ∧
        (v.settleSettings around).runIn w = (.error (.notEncodable cut.error), w') ∧
        World.Like { w with disk := v.savedOn w.disk cut.written } w' := by
  rcases hrun : (v.settleSettings around).runIn w with ⟨r, w'⟩
  rcases settleSettings_cases hrun with
    ⟨e, hload, rfl, rfl⟩ | ⟨loaded, saved, w₁, hload, hsave, hw'⟩
  · exact Or.inl ⟨e, hload, rfl⟩
  · have hlike := like_saveSettings (w := w.heard (loadEvents loaded)) ht hroot hsave
    have hstand : loaded.raw.validated.stand = loaded.settings.validated :=
      loaded.raw.stand_validated
    rw [hstand] at hlike
    rcases hw' with ⟨rfl, rfl, rfl⟩ | ⟨path, e, rfl, rfl, htold⟩ | ⟨cut, hcut, rfl, rfl, -, rfl⟩
    · rcases hlike with ⟨_, -, hr, -⟩ | ⟨-, hlike⟩
      · cases hr
      · exact Or.inr (Or.inl ⟨loaded, w', hload, rfl, hlike.of_heard⟩)
    · -- that the system refused to write is only told
      rcases hlike with ⟨_, -, hr, -⟩ | ⟨-, hlike⟩
      · cases hr
      · cases htold
        refine Or.inr (Or.inl ⟨loaded, _, hload, rfl, ?_⟩)
        exact ⟨⟨hlike.disk, hlike.intrusions, hlike.permitted⟩, hlike.clock⟩
    · rcases hlike with ⟨cut', hcut', -, hlike⟩ | ⟨hr | ⟨_, _, hr⟩, -⟩
      · obtain rfl : cut' = cut := Except.error.inj (hcut'.symm.trans hcut)
        exact Or.inr (Or.inr ⟨loaded, cut', w', hload, hcut, rfl, hlike.of_heard⟩)
      · cases hr
      · cases hr

/-! ## What can be different then -/

theorem get?_withSettingsFolder (d : Disk) (p : Place) :
    (v.withSettingsFolder d).get? p = d.get? p ∨
      (p = v.settingsFolder.place ∧ d.get? p = none ∧
        (v.withSettingsFolder d).get? p = some .folder) := by
  rw [withSettingsFolder]
  split
  · next h =>
    by_cases hp : p = v.settingsFolder.place
    · subst hp
      exact Or.inr ⟨rfl, h.2, Disk.get?_insert_self (by simp [settingsFolder_place]) h.2 _⟩
    · exact Or.inl (Disk.get?_insert_of_ne hp d _)
  · exact Or.inl rfl

theorem takesPath_savedOn (v : Vault) (d : Disk) (content : List UInt8) (text : String) :
    (v.savedOn d content).takesPath text = d.takesPath text := by
  have hd := takesPath_withSettingsFolder v d text
  rw [savedOn]
  split
  · exact hd
  · exact hd

theorem isTree_savedOn {d : Disk} (ht : d.IsTree) (hroot : d.get? v.place = some .folder)
    (content : List UInt8) : (v.savedOn d content).IsTree := by
  have ht' := isTree_withSettingsFolder ht hroot
  rw [savedOn]
  split
  · next h =>
    obtain ⟨-, hfolder, hdir⟩ := h
    rcases (v.withSettingsFolder d).get?_cases v.settingsFile.place with hn | hf | hfile
    · rw [Disk.putFile_of_none (by simp [settingsFile_place]) hn]
      rw [settingsFile_place] at hn ⊢
      exact ht'.insert isName_settingsFile hfolder hn _
    · exact absurd hf hdir
    · exact ht'.putFile_of_isFile hfile content
  · exact ht'

/-- Apart from the settings file nothing changes, but that its folder may be new. -/
theorem get?_savedOn_of_ne (d : Disk) (content : List UInt8) {p : Place}
    (hp : p ≠ v.settingsFile.place) :
    (v.savedOn d content).get? p = d.get? p ∨
      (p = v.settingsFolder.place ∧ d.get? p = none ∧
        (v.savedOn d content).get? p = some .folder) := by
  have hsame : (v.savedOn d content).get? p = (v.withSettingsFolder d).get? p := by
    rw [savedOn]
    split
    · exact Disk.get?_putFile_of_ne hp _ content
    · rfl
  rw [hsame]
  exact get?_withSettingsFolder d p

theorem isFile_savedOn_iff (d : Disk) (content : List UInt8) {p : Place}
    (hp : p ≠ v.settingsFile.place) : (v.savedOn d content).IsFile p ↔ d.IsFile p := by
  rcases get?_savedOn_of_ne d content hp with he | ⟨-, hn, hf⟩
  · simp only [Disk.IsFile, he]
  · exact ⟨fun h => absurd h (Disk.not_isFile_of_folder hf),
      fun h => absurd h (Disk.not_isFile_of_none hn)⟩

/-- All files but the settings file stay as they are. -/
theorem get?_savedOn_of_isFile {d : Disk} (content : List UInt8) {p : Place} (hp : d.IsFile p)
    (hne : p ≠ v.settingsFile.place) : (v.savedOn d content).get? p = d.get? p := by
  rcases get?_savedOn_of_ne d content hne with he | ⟨-, hn, -⟩
  · exact he
  · exact absurd hp (Disk.not_isFile_of_none hn)

theorem folder_savedOn {d : Disk} (content : List UInt8) {p : Place}
    (hp : d.get? p = some .folder) : (v.savedOn d content).get? p = some .folder := by
  by_cases hs : p = v.settingsFile.place
  · subst hs
    have hkept : (v.withSettingsFolder d).get? v.settingsFile.place = some .folder := by
      rcases get?_withSettingsFolder d v.settingsFile.place with he | ⟨he, -, -⟩
      · rw [he, hp]
      · exact absurd he (settingsFile_ne_settingsFolder v)
    rw [savedOn]
    split
    · next h => exact absurd hkept h.2.2
    · exact hkept
  · rcases get?_savedOn_of_ne d content hs with he | ⟨-, hn, -⟩
    · rw [he, hp]
    · rw [hn] at hp
      cases hp

/-- A folder that is there then was there before, or is that of the settings file. -/
theorem folder_of_savedOn {d : Disk} {content : List UInt8} {p : Place}
    (hp : (v.savedOn d content).get? p = some .folder) :
    d.get? p = some .folder ∨ p = v.settingsFolder.place := by
  have hmade : (v.withSettingsFolder d).get? p = some .folder := by
    rw [savedOn] at hp
    split at hp
    · next h =>
      by_cases hs : p = v.settingsFile.place
      · subst hs
        rw [Disk.get?_putFile_self (by simp [settingsFile_place])] at hp
        cases hp
      · rwa [Disk.get?_putFile_of_ne hs] at hp
    · exact hp
  rcases get?_withSettingsFolder d p with he | ⟨he, -, -⟩
  · exact Or.inl (he ▸ hmade)
  · exact Or.inr he

end Vault

end NoteArchive
