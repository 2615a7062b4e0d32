import NoteArchive.Proofs.Settings.Reload

/-!
# Saved settings are read back

Nothing is asked here of the disk, which need not be a tree: that the settings were saved says
enough of it.

* `Disk.lookup_of_writeFile`: the search for a file that was written finds what was written.
* `Vault.of_putSettings`, `Vault.of_saveSettings`: what the disk is when the settings file could be
  written.
* `loadSettings_after_saveSettings`: so the settings that are read are those that were saved,
  whatever was in the file before.
-/

namespace NoteArchive

open Act

namespace Disk

variable {d d' : Disk} {q p : Place} {rest : List String} {name : String} {bytes : List UInt8}
  {e : Entry}

/-! ## The search for a written file -/

theorem lookupFrom_cons_eq_found_iff :
    d.lookupFrom q (name :: rest) = .found e ↔
      d.get? q = some .folder ∧ isTooLong name = false ∧
        d.lookupFrom (q ++ [name]) rest = .found e := by
  rw [lookupFrom]
  rcases d.get? q with _ | _ | _
  · simp
  · simp
  · cases isTooLong name <;> simp

/-- What is found, is found in a folder that is found, by a name that is not too long. -/
theorem lookupFrom_concat_eq_found_iff :
    d.lookupFrom q (rest ++ [name]) = .found e ↔
      d.lookupFrom q rest = .found .folder ∧ isTooLong name = false ∧
        d.get? (q ++ rest ++ [name]) = some e := by
  induction rest generalizing q with
  | nil =>
    have hnil : ∀ (p : Place) (e : Entry), d.lookupFrom p [] = .found e ↔ d.get? p = some e := by
      intro p e
      rw [lookupFrom]
      cases d.get? p <;> simp
    rw [List.nil_append, lookupFrom_cons_eq_found_iff, hnil, hnil, List.append_nil]
  | cons step rest ih =>
    rw [List.cons_append, lookupFrom_cons_eq_found_iff, lookupFrom_cons_eq_found_iff, ih,
      List.append_assoc q [step], List.singleton_append, and_assoc, and_assoc]

/-- In a folder that is found a name that is too long is not looked for. -/
theorem lookupFrom_concat_of_isTooLong (h : d.lookupFrom q rest = .found .folder)
    (hs : isTooLong name = true) : d.lookupFrom q (rest ++ [name]) = .nameTooLong := by
  induction rest generalizing q with
  | nil =>
    have hfolder : d.get? q = some .folder := by simpa using get?_of_lookupFrom h
    rw [List.nil_append, lookupFrom, hfolder]
    simp [hs]
  | cons step rest ih =>
    obtain ⟨hfolder, hstep, hrest⟩ := lookupFrom_cons_eq_found_iff.1 h
    rw [List.cons_append, lookupFrom_cons_of_folder hfolder hstep, ih hrest]

/-- A file that is written further down does not disturb a search. -/
theorem lookupFrom_putFile (h : d.lookupFrom q rest = .found e)
    (hp : (q ++ rest).length < p.length) : (d.putFile p bytes).lookupFrom q rest = .found e := by
  have hsame : ∀ q', q'.length < p.length → (d.putFile p bytes).get? q' = d.get? q' := by
    intro q' hq'
    refine get?_putFile_of_ne ?_ d bytes
    rintro rfl
    exact Nat.lt_irrefl _ hq'
  induction rest generalizing q with
  | nil =>
    rw [List.append_nil] at hp
    rw [lookupFrom] at h ⊢
    rwa [hsame q hp]
  | cons step rest ih =>
    obtain ⟨hfolder, hstep, hrest⟩ := lookupFrom_cons_eq_found_iff.1 h
    have hdeep : (q ++ [step] ++ rest).length < p.length := by simpa using hp
    have hq : q.length < p.length := by
      rw [List.length_append] at hp
      omega
    exact lookupFrom_cons_eq_found_iff.2 ⟨(hsame q hq).trans hfolder, hstep, ih hrest hdeep⟩

/-- A file can be written only in a folder that is found, by a name that is not too long. -/
theorem of_writeFile_concat (h : d.writeFile (q ++ [name]) bytes = .ok d') :
    d' = d.putFile (q ++ [name]) bytes ∧ d.lookup q = .found .folder ∧
      isTooLong name = false := by
  rw [writeFile] at h
  split at h
  · cases h
  · next hfile =>
    cases h
    obtain ⟨hfolder, hs, -⟩ := lookupFrom_concat_eq_found_iff.1 hfile
    exact ⟨rfl, hfolder, hs⟩
  · cases h
  · cases h
  · next hmissing =>
    rw [List.dropLast_concat] at h
    split at h
    · next hfolder =>
      cases h
      rw [isFolder, decide_eq_true_iff] at hfolder
      refine ⟨rfl, hfolder, ?_⟩
      by_contra hs
      rw [lookup, lookupFrom_concat_of_isTooLong hfolder (by simpa using hs)] at hmissing
      cases hmissing
    · cases h

/-- The search for a file that was written finds what was written. -/
theorem lookup_of_writeFile (h : d.writeFile (q ++ [name]) bytes = .ok d') :
    d'.lookup (q ++ [name]) = .found (.file bytes) := by
  obtain ⟨rfl, hfolder, hs⟩ := of_writeFile_concat h
  refine lookupFrom_concat_eq_found_iff.2 ⟨lookupFrom_putFile hfolder (by simp), hs, ?_⟩
  exact get?_putFile_self (by simp) d bytes

end Disk

namespace Vault

variable {v : Vault} {w w' : World} {content : List UInt8}

/-! ## The settings file -/

/-- Where the settings file could be written, the search for it finds what was written. -/
theorem of_putSettings (h : (v.putSettings content).runIn w = (.ok (), w')) :
    w'.disk.takesPath v.settingsFile.text = true ∧
      w'.disk.lookup v.settingsFile.place = .found (.file content) := by
  rw [putSettings, runIn_get_bind] at h
  dsimp only at h
  rw [runIn_ite] at h
  split at h
  · split at h
    · cases h
    · next d hmake =>
      rw [runIn_set_bind, Spot.change] at h
      by_cases htakes : d.takesPath v.settingsFile.text = true
      · rw [if_pos htakes] at h
        rcases hwrite : d.writeFile v.settingsFile.place content with cause | d' <;>
          rw [hwrite] at h <;> cases h
        have hplace := v.settingsFile_place
        rw [hplace] at hwrite ⊢
        obtain ⟨hd', -, -⟩ := Disk.of_writeFile_concat hwrite
        exact ⟨hd' ▸ htakes, Disk.lookup_of_writeFile hwrite⟩
      · rw [if_neg htakes] at h
        cases h
  · cases h

/-- Settings are saved only as a whole. -/
theorem of_saveSettings {r : Settings.Raw} (h : (v.saveSettings r).runIn w = (.ok (), w')) :
    ∃ s : Settings, r = s ∧ w'.disk.takesPath v.settingsFile.text = true ∧
      w'.disk.lookup v.settingsFile.place = .found (.file s.fileBytes) := by
  rw [saveSettings] at h
  rcases hbytes : r.fileBytes? with cut | content <;> rw [hbytes] at h
  · rcases runIn_bind_cases h with ⟨_, w₁, -, h⟩ | ⟨e, -, he⟩
    · cases h
    · cases he
  · obtain ⟨s, rfl, rfl⟩ := Settings.fileBytes?_eq_ok_iff.1 hbytes
    rcases runIn_bind_cases h with ⟨_, w₁, hput, h⟩ | ⟨e, -, he⟩
    · cases h
      obtain ⟨htakes, hfound⟩ := of_putSettings hput
      exact ⟨s, rfl, htakes, hfound⟩
    · cases he

/-- Where the search for the settings file finds a content, that is what is read. -/
theorem settingsOn_of_lookup {d : Disk} (hnull : hasNull v.text = false)
    (htakes : d.takesPath v.settingsFile.text = true)
    (h : d.lookup v.settingsFile.place = .found (.file content)) (around : Nat) :
    v.settingsOn d around = Settings.ofBytes v.settingsFile.text content around := by
  have hnull' : hasNull v.settingsFile.text = false := (hasNull_settingsFile v).trans hnull
  have hthere : v.settingsFile.isThere d = .ok true := by
    rw [Spot.isThere, Spot.entry?, if_neg (by simp [hnull']), Spot.lookup, if_pos htakes, h]
    rfl
  rw [settingsOn]
  simp only [hthere, Disk.get?_of_lookup h]
  rfl

end Vault

open Vault

/-- Settings that could be saved are those that are read next, whatever their texts are and whatever
the settings file held before.  The system takes no path with a null character, so a vault has none
in its path, and `around` operations leave room to read an object. -/
theorem loadSettings_after_saveSettings (v : Vault) (s : Settings) (around : Nat) (w w' : World)
    (hnull : hasNull v.text = false) (haround : around < Json.nestingLimit)
    (h : (v.saveSettings s).runIn w = (.ok (), w')) :
    ((v.loadSettings around).runIn w').1 = .ok s ∧
      w'.disk.get? v.settingsFile.place = some (.file s.fileBytes) := by
  obtain ⟨s', hs, htakes, hfound⟩ := of_saveSettings h
  obtain rfl : s = s' := Settings.raw_inj.1 hs
  refine ⟨?_, Disk.get?_of_lookup hfound⟩
  have hload : v.settingsOn w'.disk around = .ok (Settings.ofObject s.raw.toFields) := by
    rw [settingsOn_of_lookup hnull htakes hfound, Settings.ofBytes_fileBytes _ s haround]
  rw [loadSettings, runIn_get_bind, hload]
  exact congrArg Except.ok s.raw.ofFields_toFields

/-- Texts with all that JSON and the system set apart, over a longer file that holds no settings. -/
theorem loadSettings_after_saveSettings_of_odd_texts :
    let v : Vault := ⟨⟨"/", ["v"]⟩, ["v"]⟩
    let w : World := .ofDisk
      { entries := [(["v"], .folder), (["v", ".daily_note_mover"], .folder),
          (["v", ".daily_note_mover", "data.json"], .file (List.replicate 400 91))] }
    let s : Settings :=
      { targetFolder := "\"A\\\x00\r\n\u2028/", showSummary := false
        dateFormat := "\x7f\t\r日\u0085", useSubfolders := true }
    ∃ w', (v.saveSettings s).runIn w = (.ok (), w') ∧
      ((v.loadSettings).runIn w').1 = .ok s := by
  intro v w s
  have hok : ((v.saveSettings s).runIn w).1.toOption = some () := by decide +kernel
  rcases hsave : (v.saveSettings s).runIn w with ⟨e | _, w'⟩
  · rw [hsave] at hok
    cases hok
  · exact ⟨w', rfl, (loadSettings_after_saveSettings v s 0 w w' (by decide) (by decide) hsave).1⟩

end NoteArchive
