import NoteArchive.Proofs.Json.Limits
import NoteArchive.Proofs.Settings.Reload
import NoteArchive.Proofs.Vault.Spot

/-!
# Settings files that cannot be read

What is read as the usual settings, and what makes the loading of settings fail.

* `Settings.WritesObject`: a content that is the text of an object.
* `Settings.IsUnreadable`: a content that is no text, or one at which the reader gives up.
* `ofBytes_fails_iff`, `raw_of_ofBytes`: what is made of a content.
* `settingsOn_fails_iff`, `raw_of_settingsOn`: and of what is on a disk, where a folder may be
  in place of the file, or nothing.
* `loadSettings_fails_iff`: so loading fails only for a content that cannot be read, or where the
  system does not take the path of the file.
-/

namespace NoteArchive

open Act

namespace Settings

variable {path : String} {around : Nat} {bytes : List UInt8} {s : List Char}
  {fields : List (Text.Wide × Json)} {loaded : Loaded}

/-! ## Contents -/

/-- The content is the text of an object with these fields, which is read in `around` operations. -/
def WritesObject (around : Nat) (bytes : List UInt8) (fields : List (Text.Wide × Json)) : Prop :=
  ∃ s, Text.Utf8.encode s = bytes ∧
    Json.read (Text.unixNewlines s) (Json.nestingLimit - around) = .ok (.object fields)

/-- The content is no text, or one at which the reader gives up in `around` operations. -/
def IsUnreadable (around : Nat) (bytes : List UInt8) : Prop :=
  (∀ s, Text.Utf8.encode s ≠ bytes) ∨
    ∃ s e, Text.Utf8.encode s = bytes ∧
      Json.read (Text.unixNewlines s) (Json.nestingLimit - around) = .error e ∧
      e.fault.isLimit = true

theorem writesObject_encode_iff :
    WritesObject around (Text.Utf8.encode s) fields ↔
      Json.read (Text.unixNewlines s) (Json.nestingLimit - around) = .ok (.object fields) := by
  constructor
  · rintro ⟨t, ht, hread⟩
    obtain rfl := Text.Utf8.encode_injective ht
    exact hread
  · exact fun hread => ⟨s, rfl, hread⟩

theorem isUnreadable_encode_iff :
    IsUnreadable around (Text.Utf8.encode s) ↔
      ∃ e, Json.read (Text.unixNewlines s) (Json.nestingLimit - around) = .error e ∧
        e.fault.isLimit = true := by
  constructor
  · rintro (hno | ⟨t, e, ht, hread, hl⟩)
    · exact absurd rfl (hno s)
    · obtain rfl := Text.Utf8.encode_injective ht
      exact ⟨e, hread, hl⟩
  · rintro ⟨e, hread, hl⟩
    exact Or.inr ⟨s, e, rfl, hread, hl⟩

/-- A text that has no more than the reader takes is readable. -/
theorem not_isUnreadable_encode
    (h : ¬ Json.Exceeds (Json.nestingLimit - around) (Text.unixNewlines s)) :
    ¬ IsUnreadable around (Text.Utf8.encode s) := by
  rw [isUnreadable_encode_iff]
  rintro ⟨e, hread, hl⟩
  exact h (Json.exceeds_of_read hread hl)

theorem ofBytes_of_no_text (path : String) (around : Nat) (h : ∀ s, Text.Utf8.encode s ≠ bytes) :
    ∃ e, ofBytes path bytes around = .error e := by
  rcases hdecode : Text.Utf8.decode bytes with e | s
  · exact ⟨.notUtf8 e, by rw [ofBytes, hdecode]⟩
  · exact absurd (Text.Utf8.decode_eq_ok_iff.1 hdecode) (h s)

theorem ofBytes_fails_iff :
    (∃ e, ofBytes path bytes around = .error e) ↔ IsUnreadable around bytes := by
  by_cases htext : ∃ s, Text.Utf8.encode s = bytes
  · obtain ⟨s, rfl⟩ := htext
    rw [ofBytes_encode, isUnreadable_encode_iff, ofText]
    rcases Json.read (Text.unixNewlines s) (Json.nestingLimit - around) with e | value
    · dsimp only
      cases hl : e.fault.isLimit <;> simp [hl]
    · cases value <;> simp
  · rw [not_exists] at htext
    exact ⟨fun _ => Or.inl htext, fun _ => ofBytes_of_no_text path around htext⟩

/-- Settings that a content is made into are in the object that it writes; where it writes none,
they are the usual ones. -/
theorem raw_of_ofBytes (h : ofBytes path bytes around = .ok loaded) :
    (∃ fields, WritesObject around bytes fields ∧ loaded.raw = .ofFields fields) ∨
      ((∀ fields, ¬ WritesObject around bytes fields) ∧ loaded.raw = Settings.usual) := by
  by_cases htext : ∃ s, Text.Utf8.encode s = bytes
  · obtain ⟨s, rfl⟩ := htext
    simp only [writesObject_encode_iff]
    rw [ofBytes_encode, ofText] at h
    split at h
    · next fields hread =>
      cases h
      exact Or.inl ⟨fields, hread, rfl⟩
    · next value hobject hread =>
      cases h
      refine Or.inr ⟨fun fields hfields => ?_, rfl⟩
      rw [hread] at hfields
      exact hobject fields (Except.ok.inj hfields)
    · next e hread =>
      split at h
      · cases h
      · cases h
        refine Or.inr ⟨fun fields hfields => ?_, rfl⟩
        rw [hread] at hfields
        cases hfields
  · obtain ⟨e, he⟩ := ofBytes_of_no_text path around (not_exists.1 htext)
    rw [he] at h
    cases h

end Settings

/-! ## What is on a disk -/

namespace Vault

variable {v : Vault} {d : Disk} {around : Nat} {loaded : Loaded}

theorem short_of_settingsFile (ht : d.IsTree) (hroot : d.get? v.place = some .folder) :
    ∀ name ∈ v.settingsFile.place, Disk.isTooLong name = false := by
  intro name hname
  rw [settingsFile_place, settingsFolder_place] at hname
  simp only [List.mem_append, List.mem_singleton] at hname
  rcases hname with (hname | rfl) | rfl
  · exact (ht.names hroot name hname).short
  · exact isName_settingsFolder.short
  · exact isName_settingsFile.short

/-- Where no file is, the settings are read if the system takes the path. -/
theorem settingsOn_of_not_isFile (around : Nat) (ht : d.IsTree)
    (hroot : d.get? v.place = some .folder) (hacc : v.settingsFile.Accepted d)
    (h : ¬ d.IsFile v.settingsFile.place) :
    ∃ loaded, v.settingsOn d around = .ok loaded := by
  obtain ⟨there, hthere⟩ := Spot.exists_isThere ht hacc (short_of_settingsFile ht hroot)
  rw [settingsOn]
  simp only [hthere]
  cases there with
  | false => exact ⟨_, rfl⟩
  | true =>
    rcases d.get?_cases v.settingsFile.place with hn | hf | hfile
    · simp only [hn]
      exact ⟨_, rfl⟩
    · simp only [hf]
      exact ⟨_, rfl⟩
    · exact absurd hfile h

theorem settingsOn_fails_iff (around : Nat) (ht : d.IsTree)
    (hroot : d.get? v.place = some .folder) (hnull : hasNull v.text = false) :
    (∃ e, v.settingsOn d around = .error e) ↔
      d.takesPath v.settingsFile.text = false ∨
        ∃ bytes, d.get? v.settingsFile.place = some (.file bytes) ∧
          Settings.IsUnreadable around bytes := by
  by_cases htakes : d.takesPath v.settingsFile.text = true
  · have hacc : v.settingsFile.Accepted d := ⟨(hasNull_settingsFile v).trans hnull, htakes⟩
    by_cases hfile : d.IsFile v.settingsFile.place
    · obtain ⟨bytes, hb⟩ := hfile
      rw [settingsOn_of_file ht hacc hb, Settings.ofBytes_fails_iff]
      simp [htakes, hb]
    · obtain ⟨loaded, hload⟩ := settingsOn_of_not_isFile around ht hroot hacc hfile
      rw [hload]
      refine iff_of_false (by simp) ?_
      rintro (hno | ⟨bytes, hb, -⟩)
      · rw [htakes] at hno
        cases hno
      · exact hfile ⟨bytes, hb⟩
  · refine iff_of_true ?_ (Or.inl (by simpa using htakes))
    rcases hload : v.settingsOn d around with e | loaded
    · exact ⟨e, rfl⟩
    · exact absurd (accepted_settingsFile hnull hload).takes htakes

/-- Settings that are read are in the object that the settings file holds; where it holds none, they
are the usual ones. -/
theorem raw_of_settingsOn (ht : d.IsTree) (hnull : hasNull v.text = false)
    (h : v.settingsOn d around = .ok loaded) :
    (∃ bytes fields, d.get? v.settingsFile.place = some (.file bytes) ∧
        Settings.WritesObject around bytes fields ∧ loaded.raw = .ofFields fields) ∨
      ((∀ bytes fields, d.get? v.settingsFile.place = some (.file bytes) →
        ¬ Settings.WritesObject around bytes fields) ∧ loaded.raw = Settings.usual) := by
  by_cases hfile : d.IsFile v.settingsFile.place
  · obtain ⟨bytes, hb⟩ := hfile
    rw [settingsOn_of_file ht (accepted_settingsFile hnull h) hb] at h
    rcases Settings.raw_of_ofBytes h with ⟨fields, hobject, hs⟩ | ⟨hno, hs⟩
    · exact Or.inl ⟨bytes, fields, hb, hobject, hs⟩
    · refine Or.inr ⟨fun bytes' fields hb' => ?_, hs⟩
      rw [hb] at hb'
      cases hb'
      exact hno fields
  · exact Or.inr ⟨fun bytes _ hb => absurd ⟨bytes, hb⟩ hfile, raw_eq_usual hfile h⟩

theorem runIn_loadSettings (v : Vault) (around : Nat) (w : World) :
    ((v.loadSettings around).runIn w).1 =
      (v.settingsOn w.disk around).map Loaded.raw := by
  rw [loadSettings, runIn_get_bind, runIn_ofExcept_bind]
  cases v.settingsOn w.disk around <;> rfl

end Vault

open Vault

/-- The settings of a vault can be loaded, whatever is in place of their file, unless the system
does not take its path or its content is no text or one at which the reader gives up; and the reader
gives up only where a text has more brackets or digits than it takes.  Settings that are loaded are
in the object that the file holds, and are the usual ones where it holds none. -/
theorem loadSettings_fails_iff (v : Vault) (around : Nat) (w : World) (ht : w.disk.IsTree)
    (hroot : w.disk.get? v.place = some .folder) (hnull : hasNull v.text = false) :
    ((∃ e, ((v.loadSettings around).runIn w).1 = .error e) ↔
      w.disk.takesPath v.settingsFile.text = false ∨
        ∃ bytes, w.disk.get? v.settingsFile.place = some (.file bytes) ∧
          Settings.IsUnreadable around bytes) ∧
    (∀ s, w.disk.takesPath v.settingsFile.text = true →
      w.disk.get? v.settingsFile.place = some (.file (Text.Utf8.encode s)) →
      ¬ Json.Exceeds (Json.nestingLimit - around) (Text.unixNewlines s) →
      ∃ t, ((v.loadSettings around).runIn w).1 = .ok t) ∧
    ∀ t, ((v.loadSettings around).runIn w).1 = .ok t →
      (∃ bytes fields, w.disk.get? v.settingsFile.place = some (.file bytes) ∧
          Settings.WritesObject around bytes fields ∧ t = .ofFields fields) ∨
        ((∀ bytes fields, w.disk.get? v.settingsFile.place = some (.file bytes) →
          ¬ Settings.WritesObject around bytes fields) ∧ t = Settings.usual) := by
  have hfails := settingsOn_fails_iff around ht hroot hnull
  rw [runIn_loadSettings]
  rcases hload : v.settingsOn w.disk around with e | loaded
  · have hno := hfails.1 ⟨e, hload⟩
    refine ⟨iff_of_true ⟨e, rfl⟩ hno, fun s htakes hs hlimits => ?_, fun t h => by cases h⟩
    rcases hno with hno | ⟨bytes, hb, hunreadable⟩
    · rw [htakes] at hno
      cases hno
    · rw [hs] at hb
      cases hb
      exact absurd hunreadable (Settings.not_isUnreadable_encode hlimits)
  · have hno : ¬ ∃ e, v.settingsOn w.disk around = .error e := by simp [hload]
    refine ⟨iff_of_false (by simp [Except.map]) (fun h => hno (hfails.2 h)),
      fun s _ _ _ => ⟨_, rfl⟩, fun t h => ?_⟩
    cases h
    exact raw_of_settingsOn ht hnull hload

/-- A text in the file that is no object: its settings are the usual ones. -/
theorem loadSettings_of_list :
    let v : Vault := ⟨⟨"/", ["v"]⟩, ["v"]⟩
    let w : World := .ofDisk
      { entries := [(["v"], .folder), (["v", ".daily_note_mover"], .folder),
          (["v", ".daily_note_mover", "data.json"], .file (Text.Utf8.encode "[\"日\"]".toList))] }
    w.disk.IsTree ∧ w.disk.get? v.place = some .folder ∧ hasNull v.text = false ∧
      ((v.loadSettings).runIn w).1 = .ok Settings.usual := by
  intro v w
  have ht : w.disk.IsTree := by decide +kernel
  have hnull : hasNull v.text = false := by decide
  have htakes : w.disk.takesPath v.settingsFile.text = true := by decide +kernel
  have hread : (Json.read (Text.unixNewlines "[\"日\"]".toList) (Json.nestingLimit - 0)).toOption.map
      (fun value => value.shown.toList.head?) = some (some '[') := by decide +kernel
  have hlimits : ¬ Json.Exceeds (Json.nestingLimit - 0) (Text.unixNewlines "[\"日\"]".toList) := by
    rintro (hb | ⟨digits, hd, hlong, -⟩)
    · exact absurd hb (by decide +kernel)
    · exact absurd (Nat.lt_of_lt_of_le hlong hd.length_le) (by decide +kernel)
  obtain ⟨-, hloads, hsettings⟩ := loadSettings_fails_iff v 0 w ht rfl hnull
  obtain ⟨t, hload⟩ := hloads _ htakes rfl hlimits
  refine ⟨ht, rfl, hnull, ?_⟩
  rcases hsettings t hload with ⟨bytes, fields, hb, hobject, -⟩ | ⟨-, rfl⟩
  · cases hb
    rw [Settings.writesObject_encode_iff.1 hobject] at hread
    simp [Except.toOption, Json.shown] at hread
  · exact hload

/-- One byte that begins no character: the settings are not loaded. -/
theorem loadSettings_fails_at_bad_byte :
    let v : Vault := ⟨⟨"/", ["v"]⟩, ["v"]⟩
    let w : World := .ofDisk
      { entries := [(["v"], .folder), (["v", ".daily_note_mover"], .folder),
          (["v", ".daily_note_mover", "data.json"], .file [0xff])] }
    w.disk.IsTree ∧ w.disk.get? v.place = some .folder ∧ hasNull v.text = false ∧
      ((v.loadSettings).runIn w).1 = .error (.notUtf8 ⟨.badStart, 0, [0xff]⟩) := by
  intro v w
  exact ⟨by decide +kernel, rfl, by decide, by decide +kernel⟩

end NoteArchive
