import NoteArchive.CommandLine.Run
import NoteArchive.Proofs.Archive.Format
import NoteArchive.Proofs.Settings.ReadBack
import NoteArchive.Proofs.Settings.Unreadable

/-!
# One verdict on a format

The check of a format, the change of the settings and a run decide each for itself whether a format
can be used, and decide alike.

* `runIn_explainFormat`: what the check of a format says.
* `of_openVault`: a vault that a command may use.
* `runIn_changeSettings`: a change of the settings comes to what writing them comes to;
  `runIn_changeSettings_of_unreadable`: where they cannot be read.
* `changeSettings_of_plain`, `changeSettings_of_cut`: what is stored, without and with halves of
  characters in the settings.
* `one_verdict_on_format`: all of them, and a run, go by `DateFormat.Usable`.
-/

namespace NoteArchive.CommandLine

open Act DateFormat

/-! ## The check of a format -/

/-- The warnings of the check of a format. -/
def checkWarnings (format : String) : List String :=
  (problems format).map fun p => "⚠️  " ++ p.message

theorem runIn_explainFormat (format : String) (w : World) :
    ∃ o w', (explainFormat format).runIn w = (.ok o, w') ∧ (o.exit = 0 ↔ Usable format) ∧
      (Usable format →
        o.output = lines (checkWarnings format ++ formatLines (.ofParts format))) := by
  rw [← isValid_iff_usable, explainFormat]
  cases hvalid : isValid format with
  | true =>
    have hsame : compileResolved format = .ofParts format := by
      rw [compileResolved, resolve, if_pos hvalid]
    exact ⟨_, _, rfl, by simp, fun _ => by rw [← hsame]; rfl⟩
  | false => exact ⟨_, w, rfl, by simp, fun h => by cases h⟩

/-! ## Vaults -/

variable {text : String} {v : Vault} {w w' : World}

theorem hasNull_of_at? {d : Disk} {here : Place} (h : Vault.at? d here text = .ok v) :
    hasNull v.text = false := by
  rw [Vault.at?] at h
  split at h
  · cases h
  · next hnull =>
    split at h
    · cases h
    · split at h
      · cases h
        show hasNull (Path.ofString text).text = false
        simpa using hnull
      · cases h
      · cases h

/-- A vault that a command may use has passed its check, which changes nothing. -/
theorem of_openVault (h : (openVault text).runIn w = (.ok v, w')) :
    w' = w ∧ hasNull v.text = false ∧ v.checkRoot.runIn w = (.ok (), w) := by
  rw [openVault, runIn_get_bind, runIn_ofExcept_bind] at h
  rcases hat : Vault.at? w.disk w.here text with e | u <;> rw [hat] at h
  · cases h
  · dsimp only at h
    rcases u.runIn_checkRoot_cases w with ⟨e, hcheck⟩ | hcheck
    · rw [runIn_bind_of_error hcheck] at h
      cases h
    · rw [runIn_bind_of_ok hcheck] at h
      cases h
      exact ⟨rfl, hasNull_of_at? hat, hcheck⟩

theorem runIn_openVault (h : ((openVault text).runIn w).1.toOption = some v) :
    (openVault text).runIn w = (.ok v, w) := by
  rcases hopen : (openVault text).runIn w with ⟨e | u, w'⟩ <;> rw [hopen] at h <;> cases h
  obtain ⟨rfl, -, -⟩ := of_openVault hopen
  rfl

/-! ## A change of the settings -/

/-- The settings of a vault after a change: those that are read, as they can be used, with the new
values as they can be used. -/
def changedSettings (loaded : Loaded) (changes : Settings.Changes) : Settings.Raw :=
  (loaded.raw.validated.updated (askedChanges changes)).validated

/-- The lines of settings without halves of characters. -/
def shownLines (s : Settings) : List String :=
  ["移動先フォルダ: " ++ s.targetFolder, "日付フォーマット: " ++ s.dateFormat,
    "サマリー通知: " ++ switchText s.showSummary, "年/月サブフォルダ: " ++ switchText s.useSubfolders]

theorem settingsLines_raw (s : Settings) :
    settingsLines s = (shownLines s).map Text.wide := by
  simp [settingsLines, shownLines, Text.wide_append]

theorem lines_append (texts more : List String) :
    lines (texts ++ more) = lines texts ++ lines more := by
  simp [lines, String.join_append]

/-- Lines of characters are all printed. -/
theorem printed_wide (output : String) (texts : List String) :
    Outcome.printed output (texts.map Text.wide) =
      { exit := 0, output := output ++ lines texts } := by
  induction texts generalizing output with
  | nil =>
    rw [List.map_nil, Outcome.printed]
    exact congrArg (Outcome.mk 0 · "") (String.append_empty).symm
  | cons line rest ih =>
    have hlines : lines (line :: rest) = line ++ "\n" ++ lines rest := lines_append [line] rest
    rw [List.map_cons, Outcome.printed, Text.plain?_wide]
    dsimp only
    rw [ih, hlines, String.append_assoc, String.append_assoc, String.append_assoc]

/-- Settings that can be written are stored as they can be used, and read so from then on. -/
theorem adoptSettings_of_plain {r : Settings.Raw} {s : Settings} (ht : w.disk.IsTree)
    (hroot : w.disk.get? v.place = some .folder) (hnull : hasNull v.text = false)
    (hsave : v.CanSave w.disk) (hs : r.validated = s) :
    ∃ w', (v.adoptSettings r).runIn w = (.ok s.raw, w') ∧
      ∀ around, around < Json.nestingLimit → ∃ stored,
        v.settingsOn w'.disk around = .ok stored ∧ stored.raw = s := by
  obtain ⟨w₁, hput⟩ := (Vault.putSettings_succeeds_iff
    (w := w.heard (r.validatedLog.map .record)) ht hroot s.fileBytes).2 hsave
  obtain ⟨htakes, hfound⟩ := Vault.of_putSettings hput
  have hwrite : (v.saveSettings r.validated).runIn (w.heard (r.validatedLog.map .record)) =
      (.ok (), w₁.heard [.record (Settings.fileRecord .debug
        ("設定を保存しました: " ++ v.settingsFile.text))]) := by
    rw [hs, Vault.saveSettings_raw, Vault.writeSettings, runIn_bind_of_ok hput]
    rfl
  refine ⟨w₁.heard [.record (Settings.fileRecord .debug
    ("設定を保存しました: " ++ v.settingsFile.text))], ?_, fun around haround => ?_⟩
  · rw [Vault.adoptSettings, runIn_tellAll_bind, runIn_bind_of_ok hwrite, hs]
    rfl
  · refine ⟨Settings.ofObject s.raw.toFields, ?_, s.raw.ofFields_toFields⟩
    exact (Vault.settingsOn_of_lookup hnull htakes hfound around).trans
      (Settings.ofBytes_fileBytes _ s haround)

/-- Settings with half a character are not stored: the file ends before it. -/
theorem adoptSettings_of_cut {r : Settings.Raw} {cut : Json.Cut} (ht : w.disk.IsTree)
    (hroot : w.disk.get? v.place = some .folder) (hsave : v.CanSave w.disk)
    (hcut : r.validated.fileBytes? = .error cut) :
    ∃ w', (v.adoptSettings r).runIn w = (.error (.notEncodable cut.error), w') ∧
      w'.disk.get? v.settingsFile.place = some (.file cut.written) := by
  obtain ⟨w₁, hput⟩ := (Vault.putSettings_succeeds_iff
    (w := w.heard (r.validatedLog.map .record)) ht hroot cut.written).2 hsave
  refine ⟨w₁, ?_, Disk.get?_of_lookup (Vault.of_putSettings hput).2⟩
  rw [Vault.adoptSettings, runIn_tellAll_bind,
    runIn_bind_of_error (Vault.saveSettings_of_cut hcut hput)]

/-- What a change begins with: the vault is opened, and its settings are read and made usable. -/
def openSettings (text : String) : Act (Vault × Settings.Raw) := do
  let v ← openVault text
  let r ← v.loadSettings callsAround
  tellAll r.validatedLog
  return (v, r.validated)

theorem runIn_openSettings (hopen : (openVault text).runIn w = (.ok v, w)) :
    (openSettings text).runIn w =
      match v.settingsOn w.disk callsAround with
      | .error e => (.error e, w)
      | .ok loaded => (.ok (v, loaded.raw.validated), w.heard (Vault.loadEvents loaded)) := by
  rw [openSettings, runIn_bind_of_ok hopen, Vault.loadSettings, bind_assoc, runIn_get_bind,
    bind_assoc, runIn_ofExcept_bind]
  cases v.settingsOn w.disk callsAround with
  | error e => rfl
  | ok loaded =>
    simp only [bind_assoc, runIn_tellAll_bind, pure_bind, runIn_pure, World.heard, Vault.loadEvents,
      List.append_assoc, List.map_append]

/-- Settings that cannot be read are not changed. -/
theorem runIn_changeSettings_of_unreadable {e : Failure} (changes : Settings.Changes)
    (hopen : (openVault text).runIn w = (.ok v, w))
    (hload : v.settingsOn w.disk callsAround = .error e) :
    (changeSettings text changes).runIn w = (.ok (.failed "" e), w) := by
  have hshown := runIn_attempt (openSettings text) w
  rw [runIn_openSettings hopen, hload] at hshown
  exact runIn_bind_of_ok hshown _

section Changes

variable {loaded : Loaded} {changes : Settings.Changes}

/-- What is told before changed settings are written. -/
def changeEvents (loaded : Loaded) (changes : Settings.Changes) : List Event :=
  Vault.loadEvents loaded ++
    (loaded.raw.validated.updatedLog (askedChanges changes)).map .record

/-- A change of settings that can be read comes to what writing them comes to. -/
theorem runIn_changeSettings {r : Except Failure Settings.Raw} {w₁ : World}
    (hchanges : askedChanges changes ≠ {}) (hopen : (openVault text).runIn w = (.ok v, w))
    (hload : v.settingsOn w.disk callsAround = .ok loaded)
    (hadopt : (v.adoptSettings (loaded.raw.validated.updated (askedChanges changes))).runIn
      (w.heard (changeEvents loaded changes)) = (r, w₁)) :
    (changeSettings text changes).runIn w =
      (.ok (match r with
        | .error e => .failed (lines (formatWarning (askedChanges changes))) e
        | .ok r => .printed (lines (formatWarning (askedChanges changes) ++
            ["✅ 設定を保存しました: " ++ v.settingsFile.text])) (settingsLines r)), w₁) := by
  have hshown := runIn_attempt (openSettings text) w
  rw [runIn_openSettings hopen, hload] at hshown
  dsimp only at hshown
  have hadopted := runIn_attempt
    (v.adoptSettings (loaded.raw.validated.updated (askedChanges changes)))
    (w.heard (changeEvents loaded changes))
  rw [hadopt] at hadopted
  have hheard : (w.heard (Vault.loadEvents loaded)).heard
      ((loaded.raw.validated.updatedLog (askedChanges changes)).map .record) =
      w.heard (changeEvents loaded changes) := by
    simp [World.heard, changeEvents, List.append_assoc]
  refine (runIn_bind_of_ok hshown _).trans ?_
  dsimp only
  rw [if_neg hchanges, runIn_tellAll_bind, hheard, runIn_bind_of_ok hadopted]
  cases r <;> rfl

/-- Settings that can be read and written are changed, and read so from then on. -/
theorem changeSettings_of_plain {s : Settings} (hchanges : askedChanges changes ≠ {})
    (ht : w.disk.IsTree) (hopen : (openVault text).runIn w = (.ok v, w))
    (hload : v.settingsOn w.disk callsAround = .ok loaded) (hsave : v.CanSave w.disk)
    (hs : changedSettings loaded changes = s) :
    ∃ w', (changeSettings text changes).runIn w =
        (.ok { exit := 0
               output := lines (formatWarning (askedChanges changes) ++
                 ("✅ 設定を保存しました: " ++ v.settingsFile.text) :: shownLines s) }, w') ∧
      ∀ around, around < Json.nestingLimit → ∃ stored,
        v.settingsOn w'.disk around = .ok stored ∧ stored.raw = s := by
  obtain ⟨-, hnull, hcheck⟩ := of_openVault hopen
  obtain ⟨-, hroot⟩ := (Vault.of_checkRoot ht hcheck).2 rfl
  obtain ⟨w₁, hadopt, hstored⟩ := adoptSettings_of_plain
    (w := w.heard (changeEvents loaded changes)) ht hroot hnull hsave hs
  refine ⟨w₁, ?_, hstored⟩
  rw [runIn_changeSettings hchanges hopen hload hadopt]
  dsimp only
  rw [settingsLines_raw, printed_wide, ← lines_append, List.append_assoc]
  rfl

/-- Changed settings with half a character are not stored, and the settings file ends before it. -/
theorem changeSettings_of_cut {cut : Json.Cut} (hchanges : askedChanges changes ≠ {})
    (ht : w.disk.IsTree) (hopen : (openVault text).runIn w = (.ok v, w))
    (hload : v.settingsOn w.disk callsAround = .ok loaded) (hsave : v.CanSave w.disk)
    (hcut : (changedSettings loaded changes).fileBytes? = .error cut) :
    ∃ w', (changeSettings text changes).runIn w =
        (.ok (.failed (lines (formatWarning (askedChanges changes))) (.notEncodable cut.error)),
          w') ∧
      w'.disk.get? v.settingsFile.place = some (.file cut.written) := by
  obtain ⟨-, -, hcheck⟩ := of_openVault hopen
  obtain ⟨-, hroot⟩ := (Vault.of_checkRoot ht hcheck).2 rfl
  obtain ⟨w₁, hadopt, hfile⟩ := adoptSettings_of_cut
    (w := w.heard (changeEvents loaded changes)) ht hroot hsave hcut
  exact ⟨w₁, runIn_changeSettings hchanges hopen hload hadopt, hfile⟩

end Changes

/-! ## The format that is asked for -/

section Asked

variable {changes : Settings.Changes} {f : String}

theorem dateFormat_askedChanges (hc : changes.dateFormat = some f) (hf : f ≠ "") :
    (askedChanges changes).dateFormat = some f := by
  simp [askedChanges, hc, hf]

/-- The user is warned exactly of a format that cannot be used. -/
theorem formatWarning_eq_nil_iff (hc : changes.dateFormat = some f) (hf : f ≠ "") :
    formatWarning (askedChanges changes) = [] ↔ Usable f := by
  rw [formatWarning, dateFormat_askedChanges hc hf, ← isValid_iff_usable]
  cases hvalid : isValid f <;> simp [hvalid]

/-- The format is stored itself exactly when it can be used. -/
theorem dateFormat_iff_of_changedSettings {loaded : Loaded} {s : Settings}
    (hs : changedSettings loaded changes = s) (hc : changes.dateFormat = some f) (hf : f ≠ "") :
    s.dateFormat = f ↔ Usable f := by
  have hasked : (loaded.raw.validated.replace (askedChanges changes)).dateFormat = Text.wide f := by
    rw [Settings.Raw.replace, dateFormat_askedChanges hc hf]
    rfl
  have hformat : Text.wide s.dateFormat = Text.wide (resolve f) := by
    have hvalid := congrArg Settings.Raw.dateFormat hs
    rw [changedSettings, Settings.Raw.dateFormat_validated, Settings.Raw.updated,
      Settings.Raw.dateFormat_validated, hasked, resolveWide_wide, resolveWide_wide,
      Settings.resolve_resolve] at hvalid
    exact hvalid.symm
  rw [Text.wide_inj.1 hformat, resolve_eq_self_iff]

end Asked

/-- Whether a format can be used is judged alike everywhere: by its check, by a change of the
settings, and by a run.  A format that can be used is accepted, stored itself without a warning, and
compiled itself in each run with settings that have it, to what its check shows; another one is
rejected, and the usual one is stored and used in its place.  A change needs a settings file that
can be read and written, and settings without halves of characters.  Where the file cannot be read
nothing is stored, whatever the format is, and half a character in the settings that are kept ends
the file before it. -/
theorem one_verdict_on_format (f : String) (hf : f ≠ "") :
    (∀ w : World, ∃ o w', (explainFormat f).runIn w = (.ok o, w') ∧ (o.exit = 0 ↔ Usable f) ∧
      ∀ c, compile f = .ok c → c.tokens ≠ [] →
        o.output = lines (checkWarnings f ++ formatLines c)) ∧
    (∀ (vault : String) (changes : Settings.Changes) (v : Vault) (w : World),
      changes.dateFormat = some f → w.disk.IsTree → (openVault vault).runIn w = (.ok v, w) →
      (∀ loaded, v.settingsOn w.disk callsAround = .ok loaded → v.CanSave w.disk →
        (∀ s : Settings, changedSettings loaded changes = s →
          (∃ w', (changeSettings vault changes).runIn w =
              (.ok { exit := 0
                     output := lines (formatWarning (askedChanges changes) ++
                       ("✅ 設定を保存しました: " ++ v.settingsFile.text) :: shownLines s) }, w') ∧
            ∀ around, around < Json.nestingLimit →
              ∃ stored, v.settingsOn w'.disk around = .ok stored ∧ stored.raw = s) ∧
          (s.dateFormat = f ↔ Usable f)) ∧
        (∀ cut, (changedSettings loaded changes).fileBytes? = .error cut →
          ∃ w', (changeSettings vault changes).runIn w =
              (.ok (.failed (lines (formatWarning (askedChanges changes)))
                (.notEncodable cut.error)), w') ∧
            w'.disk.get? v.settingsFile.place = some (.file cut.written)) ∧
        (formatWarning (askedChanges changes) = [] ↔ Usable f)) ∧
      ∀ e, v.settingsOn w.disk callsAround = .error e →
        (changeSettings vault changes).runIn w = (.ok (.failed "" e), w)) ∧
    ∀ (op : Operation) (v : Vault) (today : Option Date) (verbose : Bool) (around : Nat)
      (w w' : World) (loaded : Loaded) (r : Option Tally),
      w.disk.IsTree → (v.checkRoot.runIn w).1 = .ok () →
      v.settingsOn w.disk (around + 3) = .ok loaded → loaded.settings.dateFormat = f →
      (op.run v today verbose around).runIn w = (.ok r, w') →
      ∃ events b result w₁, w'.events = w.events ++ events ∧
        ((∃ e ∈ events, e.IsFallback) ↔ ¬ Usable f) ∧
        (op.workWith v b around).runIn w = (result, w₁) ∧ r = result.toOption ∧ w₁.Agrees w' ∧
        (b.format.format = f ↔ Usable f) ∧ (Usable f → compile f = .ok b.format) := by
  refine ⟨fun w => ?_, fun vault changes v w hc ht hopen => ⟨fun loaded hload hsave => ?_,
    fun e hload => runIn_changeSettings_of_unreadable changes hopen hload⟩, ?_⟩
  · obtain ⟨o, w', hrun, hexit, houtput⟩ := runIn_explainFormat f w
    refine ⟨o, w', hrun, hexit, fun c hcompile htokens => ?_⟩
    have husable : Usable f := ⟨c, hcompile, htokens⟩
    rw [husable.compile_eq] at hcompile
    cases hcompile
    exact houtput husable
  · have hchanges : askedChanges changes ≠ {} := by
      intro h
      have hasked := dateFormat_askedChanges hc hf
      rw [h] at hasked
      cases hasked
    exact ⟨fun s hs => ⟨changeSettings_of_plain hchanges ht hopen hload hsave hs,
        dateFormat_iff_of_changedSettings hs hc hf⟩,
      fun cut => changeSettings_of_cut hchanges ht hopen hload hsave,
      formatWarning_eq_nil_iff hc hf⟩
  · intro op v today verbose around w w' loaded r ht hroot hload hformat hrun
    obtain ⟨events, hevents, hfallback⟩ := Operation.fallback_of_run hroot hload hrun
    obtain ⟨result, w₁, hwork, hr, ha⟩ := Operation.workWith_of_run ht hroot hload hrun
    refine ⟨events, _, result, w₁, hevents, hformat ▸ hfallback, hwork, hr, ha, ?_, fun h => ?_⟩
    · rw [Operation.format_batch, hformat]
      exact resolve_eq_self_iff
    · rw [Operation.format_batch, hformat, resolve_eq_self_iff.2 h, h.compile_eq]

/-- A format with a part that is ignored is usable everywhere. -/
theorem one_verdict_on_ignored_part :
    let f := "Daily-DD-MM-YY"
    let s : Settings := { dateFormat := f }
    let v : Vault := ⟨⟨"/", ["v"]⟩, ["v"]⟩
    let w : World := .ofDisk
      { entries := [(["v"], .folder), (["v", ".daily_note_mover"], .folder),
          (["v", ".daily_note_mover", "data.json"], .file s.fileBytes)] }
    let changes : Settings.Changes := { dateFormat := some f }
    f ≠ "" ∧ Usable f ∧
      (∃ o w', (explainFormat f).runIn w = (.ok o, w') ∧ o.exit = 0) ∧
      (∃ o w' stored, (changeSettings "/v" changes).runIn w = (.ok o, w') ∧ o.exit = 0 ∧
        formatWarning (askedChanges changes) = [] ∧
        v.settingsOn w'.disk 0 = .ok stored ∧ stored.settings.dateFormat = f) ∧
      ∃ r w' b result, (Operation.archive.run v none false).runIn w = (.ok r, w') ∧
        (¬ ∃ e ∈ w'.events, e.IsFallback) ∧
        ((Operation.archive.workWith v b 0).runIn w).1 = result ∧ r = result.toOption ∧
        compile f = .ok b.format := by
  intro f s v w changes
  have hne : f ≠ "" := by decide
  have husable : Usable f := isValid_iff_usable.1 (by decide +kernel)
  have ht : w.disk.IsTree := by decide +kernel
  have htakes : w.disk.takesPath v.settingsFile.text = true := by decide +kernel
  have hfile : w.disk.get? v.settingsFile.place = some (.file s.fileBytes) := rfl
  have hload : ∀ around, around < Json.nestingLimit →
      v.settingsOn w.disk around = .ok (Settings.ofObject s.raw.toFields) := by
    intro around haround
    rw [Vault.settingsOn_of_file ht ⟨by decide, htakes⟩ hfile,
      Settings.ofBytes_fileBytes _ _ haround]
  have hraw : (Settings.ofObject s.raw.toFields).raw = s := s.raw.ofFields_toFields
  have hsave : v.CanSave w.disk := Vault.canSave_of_file ht htakes hfile
  have hopen : (openVault "/v").runIn w = (.ok v, w) := runIn_openVault (by decide +kernel)
  obtain ⟨-, -, hcheck⟩ := of_openVault hopen
  have hruns : ∃ r w', (Operation.archive.run v none false).runIn w = (.ok r, w') := by
    rcases hr : (Operation.archive.run v none false).runIn w with ⟨e | r, w'⟩
    · obtain ⟨e', hlog⟩ := (Operation.run_fails_iff .archive v none false 0 w).1
        ⟨e, congrArg Prod.fst hr⟩
      cases hlog
    · exact ⟨r, w', rfl⟩
  obtain ⟨hchecked, hchanged, hrun⟩ := one_verdict_on_format f hne
  refine ⟨hne, husable, ?_, ?_, ?_⟩
  · obtain ⟨o, w', ho, hexit, -⟩ := hchecked w
    exact ⟨o, w', ho, hexit.2 husable⟩
  · have hnew : changedSettings (Settings.ofObject s.raw.toFields) changes = s := by
      have hvalid : s.raw.validated = s := by
        rw [Settings.raw_validated]
        exact congrArg Settings.raw (by decide +kernel)
      have hreplace : s.raw.replace (askedChanges changes) = s.raw := by decide +kernel
      rw [changedSettings, hraw, hvalid, Settings.Raw.updated, hreplace, hvalid, hvalid]
    obtain ⟨hstores, -, hwarning⟩ :=
      (hchanged "/v" changes v w rfl ht hopen).1 _ (hload callsAround (by decide)) hsave
    obtain ⟨⟨w', ho, hstored⟩, hformat⟩ := hstores s hnew
    obtain ⟨stored, hread, hsame⟩ := hstored 0 (by decide)
    refine ⟨_, w', stored, ho, rfl, hwarning.2 husable, hread, ?_⟩
    rw [Loaded.settings_eq hsame]
  · obtain ⟨r, w', hr⟩ := hruns
    obtain ⟨events, b, result, w₁, hevents, hfallback, hwork, hresult, -, -, hcompile⟩ :=
      hrun .archive v none false 0 w w' _ r ht (congrArg Prod.fst hcheck) (hload 3 (by decide))
        (congrArg Settings.dateFormat (Loaded.settings_eq hraw)) hr
    refine ⟨r, w', b, result, hr, ?_, congrArg Prod.fst hwork, hresult, hcompile husable⟩
    rw [hevents]
    exact fun h => hfallback.1 h husable

/-- An object with a whole number of more digits than are read: the settings file can be written and
the format can be used, but nothing is stored. -/
theorem format_not_stored_over_long_number :
    let v : Vault := ⟨⟨"/", ["v"]⟩, ["v"]⟩
    let content := "\x7b\"\":1".toList ++ (List.replicate Json.digitLimit '1' ++ ['\x7d'])
    let w : World := .ofDisk
      { entries := [(["v"], .folder), (["v", ".daily_note_mover"], .folder),
          (["v", ".daily_note_mover", "data.json"], .file (Text.Utf8.encode content))] }
    v.CanSave w.disk ∧ Usable "YYYY-MM-DD" ∧
      ((explainFormat "YYYY-MM-DD").runIn w).1.toOption.map Outcome.exit = some 0 ∧
      ∃ e, (changeSettings "/v" { dateFormat := some "YYYY-MM-DD" }).runIn w =
        (.ok (.failed "" e), w) := by
  intro v content w
  have ht : w.disk.IsTree := by decide +kernel
  have hfile : w.disk.get? v.settingsFile.place = some (.file (Text.Utf8.encode content)) := rfl
  have htakes : w.disk.takesPath v.settingsFile.text = true := by decide +kernel
  have husable : Usable "YYYY-MM-DD" := isValid_iff_usable.1 (by decide +kernel)
  have hopen : (openVault "/v").runIn w = (.ok v, w) := runIn_openVault (by decide +kernel)
  have hsave : v.CanSave w.disk := Vault.canSave_of_file ht htakes hfile
  have hread : ∃ e, v.settingsOn w.disk callsAround = .error e := by
    rw [Vault.settingsOn_of_file ht ⟨by decide, htakes⟩ hfile, Settings.ofBytes_fails_iff,
      Settings.isUnreadable_encode_iff, Text.unixNewlines_of_not_mem]
    · exact Json.read_of_long Nat.le.refl _
    · simp [content, List.mem_append, List.mem_replicate]
  obtain ⟨e, he⟩ := hread
  refine ⟨hsave, husable, ?_, e, runIn_changeSettings_of_unreadable _ hopen he⟩
  obtain ⟨o, w', hrun, hexit, -⟩ := runIn_explainFormat "YYYY-MM-DD" w
  rw [hrun]
  exact congrArg some (hexit.2 husable)

end NoteArchive.CommandLine
