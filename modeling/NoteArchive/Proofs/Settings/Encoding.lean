import NoteArchive.Proofs.Json.RoundTrip
import NoteArchive.Proofs.World.Frame
import NoteArchive.Settings.Store

/-!
# Settings that can be encoded

A settings file is written piece by piece, and ends before the first text with half a character.

* `fileBytes?_eq_ok_iff`: settings have a content exactly when no character is halved in them.
* `Vault.saveSettings_raw`: so these are written as a whole.
* `Vault.saveSettings_error_cases`: why other settings are not saved.
-/

namespace NoteArchive

open Act
open Text (Wide wide)

namespace Json

variable {t : Wide} {s : String}

/-- Half a character is written as it is. -/
theorem exists_wide_of_writeText (h : writeText t = wide s) : ∃ s', t = wide s' := by
  cases ht : Text.plain? t with
  | some s' => exact ⟨s', Text.plain?_eq_some_iff.1 ht⟩
  | none =>
    obtain ⟨place, hplace⟩ := Text.plain?_eq_none_iff.1 ht
    have hmem : Text.Point.half place ∈ writeText t := by
      refine List.mem_cons_of_mem _ (List.mem_append_left _ ?_)
      exact List.mem_flatMap.2 ⟨_, hplace, List.mem_singleton_self _⟩
    rw [h, wide, List.mem_map] at hmem
    obtain ⟨_, -, hc⟩ := hmem
    cases hc

/-- Where all is written, no piece has half a character in it. -/
theorem exists_wide_of_writePieces {texts : List Wide} {bytes : List UInt8}
    (h : writePieces texts = .ok bytes) : ∀ p ∈ texts, ∃ s, p = wide s := by
  induction texts generalizing bytes with
  | nil => simp
  | cons p rest ih =>
    rw [writePieces, Text.Utf8.encode?] at h
    cases hp : Text.plain? p with
    | none =>
      rw [hp] at h
      cases h
    | some s =>
      rw [hp] at h
      cases hrest : writePieces rest with
      | error cut =>
        rw [hrest] at h
        cases h
      | ok more =>
        intro q hq
        rcases List.mem_cons.1 hq with rfl | hq
        · exact ⟨s, Text.plain?_eq_some_iff.1 hp⟩
        · exact ih hrest q hq

end Json

namespace Settings

/-- The first of the fields of settings without halves of characters. -/
def targetField (s : Settings) : String × Json.Plain := (targetFolderName, .text s.targetFolder)

/-- The other ones. -/
def otherFields (s : Settings) : List (String × Json.Plain) :=
  [(showSummaryName, .bool s.showSummary), (dateFormatName, .text s.dateFormat),
    (useSubfoldersName, .bool s.useSubfolders)]

theorem fileBytes?_raw (s : Settings) : s.raw.fileBytes? = .ok s.fileBytes :=
  Json.writePieces_plainFields s.targetField s.otherFields

/-- Both texts are among what is written. -/
theorem mem_pieces_toJson (r : Raw) :
    Json.writeText r.targetFolder ∈ Json.pieces 0 [] r.toJson ∧
      Json.writeText r.dateFormat ∈ Json.pieces 0 [] r.toJson := by
  simp [Raw.toJson, Raw.toFields, Json.pieces, Json.fieldPieces, Json.piece]

/-- Settings have a content exactly when no character is halved in them. -/
theorem fileBytes?_eq_ok_iff {r : Raw} {bytes : List UInt8} :
    r.fileBytes? = .ok bytes ↔ ∃ s : Settings, r = s ∧ bytes = s.fileBytes := by
  constructor
  · intro h
    have hplain := Json.exists_wide_of_writePieces h
    obtain ⟨htarget, hformat⟩ := mem_pieces_toJson r
    obtain ⟨_, htarget⟩ := hplain _ htarget
    obtain ⟨_, hformat⟩ := hplain _ hformat
    obtain ⟨target, htarget⟩ := Json.exists_wide_of_writeText htarget
    obtain ⟨format, hformat⟩ := Json.exists_wide_of_writeText hformat
    let s : Settings := ⟨target, r.showSummary, format, r.useSubfolders⟩
    have hr : r = s.raw := Raw.ext htarget rfl hformat rfl
    rw [hr, fileBytes?_raw] at h
    exact ⟨s, hr, (Except.ok.inj h).symm⟩
  · rintro ⟨s, rfl, rfl⟩
    exact s.fileBytes?_raw

end Settings

/-- Whether a file can be written does not hang on what it is to hold. -/
theorem Disk.writeFile_of_error {d : Disk} {p : Place} {bytes : List UInt8} {cause : SystemCause}
    (h : d.writeFile p bytes = .error cause) (more : List UInt8) :
    d.writeFile p more = .error cause := by
  unfold writeFile at h ⊢
  split at h
  · exact h
  · cases h
  · exact h
  · exact h
  · split at h
    · cases h
    · next hfolder => rwa [if_neg hfolder]

theorem Vault.Spot.writeFile_of_error {s : Vault.Spot} {d : Disk} {bytes : List UInt8}
    {cause : SystemCause} (h : s.change d (d.writeFile · bytes) = .error cause)
    (more : List UInt8) : s.change d (d.writeFile · more) = .error cause := by
  unfold change at h ⊢
  split at h
  · next htakes =>
    rw [if_pos htakes]
    exact Disk.writeFile_of_error h more
  · next htakes => rwa [if_neg htakes]

namespace Vault

variable {v : Vault} {w w' : World}

theorem saveSettings_raw (v : Vault) (s : Settings) :
    v.saveSettings s = v.writeSettings s.fileBytes := by
  rw [saveSettings, Settings.fileBytes?_raw]

/-- Where nothing can be put into the settings file, the failure says so. -/
theorem unsaved_of_putSettings {content : List UInt8} {e : Failure}
    (h : (v.putSettings content).runIn w = (.error e, w')) :
    ∃ path cause, e = .unsavedSettings path cause := by
  rw [putSettings, runIn_get_bind] at h
  dsimp only at h
  rw [runIn_ite] at h
  split at h
  · split at h
    · cases h
      exact ⟨_, _, rfl⟩
    · rw [runIn_set_bind] at h
      split at h <;> cases h
      exact ⟨_, _, rfl⟩
  · cases h
    exact ⟨_, _, rfl⟩

/-- Where one content cannot be put into the settings file, no other one can. -/
theorem putSettings_of_error {content : List UInt8} {e : Failure}
    (h : (v.putSettings content).runIn w = (.error e, w')) (more : List UInt8) :
    (v.putSettings more).runIn w = (.error e, w') := by
  rw [putSettings, runIn_get_bind] at h ⊢
  by_cases htakes : w.disk.takesPath v.settingsFolder.text = true
  · rw [if_pos htakes] at h ⊢
    rcases hmake : w.disk.makeFolders v.settingsFolder.place with r | d <;> rw [hmake] at h
    · exact h
    · -- only the last step looks at the content
      dsimp only at h ⊢
      rw [runIn_set_bind] at h ⊢
      rcases hwrite : v.settingsFile.change d (d.writeFile · content) with cause | d' <;>
        rw [hwrite] at h
      · rw [Spot.writeFile_of_error hwrite more]
        exact h
      · cases h
  · rw [if_neg htakes] at h ⊢
    exact h

theorem saveSettings_of_cut {r : Settings.Raw} {cut : Json.Cut} (hcut : r.fileBytes? = .error cut)
    (h : (v.putSettings cut.written).runIn w = (.ok (), w')) :
    (v.saveSettings r).runIn w = (.error (.notEncodable cut.error), w') := by
  rw [saveSettings, hcut]
  exact runIn_bind_of_ok h _

theorem saveSettings_of_putSettings {content : List UInt8} {e : Failure}
    (h : (v.putSettings content).runIn w = (.error e, w')) (r : Settings.Raw) :
    (v.saveSettings r).runIn w = (.error e, w') := by
  rw [saveSettings]
  split
  · rw [writeSettings, runIn_bind_of_error (putSettings_of_error h _)]
  · rw [runIn_bind_of_error (putSettings_of_error h _)]

/-- Settings that cannot be saved either meet a refusal of the system, which would meet any others,
or have half a character in one of their texts, and then the settings file ends before this text. -/
theorem saveSettings_error_cases {r : Settings.Raw} {e : Failure}
    (h : (v.saveSettings r).runIn w = (.error e, w')) :
    ((∃ path cause, e = .unsavedSettings path cause) ∧
        ∀ content, (v.putSettings content).runIn w = (.error e, w')) ∨
      ∃ cut, r.fileBytes? = .error cut ∧ e = .notEncodable cut.error ∧
        (v.putSettings cut.written).runIn w = (.ok (), w') := by
  rw [saveSettings] at h
  rcases hbytes : r.fileBytes? with cut | content <;> rw [hbytes] at h
  · rcases runIn_bind_cases h with ⟨_, w₁, hput, h⟩ | ⟨e', hput, he⟩
    · cases h
      exact Or.inr ⟨cut, rfl, rfl, hput⟩
    · cases he
      exact Or.inl ⟨unsaved_of_putSettings hput, putSettings_of_error hput⟩
  · rcases runIn_bind_cases h with ⟨_, w₁, -, h⟩ | ⟨e', hput, he⟩
    · cases h
    · cases he
      exact Or.inl ⟨unsaved_of_putSettings hput, putSettings_of_error hput⟩

end Vault

end NoteArchive
